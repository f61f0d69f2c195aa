import SparsePattern.Proofs.Draft.Queries
import SparsePattern.Proofs.Draft.Reservations

/-!
# Wider patterns

Widening a square pattern inserts the pairs that it asks for into a new draft, one row after another
(`widen_eq`).  It comes to its end exactly if every row has room for its columns and those of the
band (`exists_widen_iff`), and the draft then records these and no others (`contains_widen`).
Otherwise it stops at the first row without room (`exists_rowFull_of_widen`): the pairs come row by
row, and what a row is refused does not depend on how often it asks.
-/

namespace SparsePattern

/-- With an entry, the pattern has the one that is mirrored at the diagonal. -/
def Pattern.Symmetric (p : Pattern) : Prop :=
  ∀ r c, Compressed.contains p r c = .ok true → Compressed.contains p c r = .ok true

namespace Draft

open Rows (require_bind_eq_ok)

variable {d e : Draft} {p : Pattern} {wanted reach row col : Nat}

/-! ### What widening asks for -/

private theorem mem_band {n : Nat} (hrow : row < n) :
    col ∈ band n reach row ↔ col < n ∧ col ≠ row ∧ distance row col ≤ reach := by
  simp only [band, distance, List.mem_append, List.mem_map, List.mem_range]
  constructor
  · rintro (⟨i, hi, rfl⟩ | ⟨i, hi, rfl⟩) <;> omega
  · rintro ⟨hcol, hne, hreach⟩
    rcases Nat.lt_or_gt_of_ne hne with hlt | hgt
    · exact .inl ⟨row - col - 1, by omega, by omega⟩
    · exact .inr ⟨col - row - 1, by omega, by omega⟩

/-- The columns that `row` of a wider pattern asks for. -/
def wideColumns (p : Pattern) (reach row : Nat) : List Nat :=
  (p.toLayout.rowList row).map UInt32.toNat ++ band p.nRows reach row

/-- The entries that the rows `row, …, row + count - 1` of a wider pattern ask for. -/
def widePairs (p : Pattern) (reach row count : Nat) : List (Nat × Nat) :=
  rowPairs (wideColumns p reach) row count

private theorem widenRows_eq (h : p.toLayout.Tiled) {count : Nat} (hle : row + count ≤ p.nRows) :
    widenRows p reach d row count = (d.insertPairs (widePairs p reach row count)).finished := by
  induction count generalizing d row with
  | zero => rfl
  | succ count ih =>
    have hrow : p.row row = .ok (p.rowList row).toArray := h.row_eq (by omega)
    have hrest (d : Draft) := @ih d (row + 1) (by omega)
    rw [widenRows, hrow]
    simp only [Rows.ok_bind, hrest]
    exact (finished_insertPairs_rowPairs (wideColumns p reach)).symm

/-! ### How widening ends -/

/-- The draft that widening starts from. -/
def widenBase (p : Pattern) (wanted : Nat) : Draft :=
  reserved p.nRows p.nRows (List.replicate p.nRows wanted) { diagonalFirst := p.diagonalFirst }

private theorem leads_widen (p : Pattern) :
    Policy.leads { diagonalFirst := p.diagonalFirst } p.nRows p.nRows = p.diagonalFirst :=
  Policy.leads_self _ _

private theorem capacity_widenBase (hrow : row < p.nRows) :
    (widenBase p wanted).capacity row = reservation p.nRows p.diagonalFirst wanted := by
  have hwanted : (List.replicate p.nRows wanted)[row]? = some wanted :=
    List.getElem?_replicate_of_lt hrow
  rw [widenBase, capacity_reserved List.length_replicate hwanted, leads_widen]

private theorem mem_wideColumns_of_leads (hp : p.WellFormed) (hrow : row < p.nRows)
    (hlead : p.diagonalFirst = true) : row ∈ wideColumns p reach row := by
  have hordered := hp.layout.row_ordered row hrow
  rw [hlead] at hordered
  exact List.mem_append_left _ hordered.mem_of_leads

section Square

variable (hp : p.WellFormed) (hsquare : p.nRows = p.nCols)
include hp hsquare

private theorem wellFormed_widenBase : (widenBase p wanted).WellFormed :=
  wellFormed_reserved (hsquare ▸ hp.layout.nCols_lt) List.length_replicate

/-- Widening is one list of insertions into the draft that it starts from. -/
theorem widen_eq (hfits : Fits p.nRows (p.nRows * reservation p.nRows p.diagonalFirst wanted)) :
    widen p wanted reach =
      ((widenBase p wanted).insertPairs (widePairs p reach 0 p.nRows)).finished := by
  have hcols : p.nRows < columnLimit := hsquare ▸ hp.layout.nCols_lt
  have huniform : uniform p.nRows p.nRows wanted { diagonalFirst := p.diagonalFirst } =
      .ok (widenBase p wanted) := by
    rw [← leads_widen p] at hfits
    exact uniform_eq_ok hcols hfits
  have hrows : widenRows p reach (widenBase p wanted) 0 p.nRows = _ :=
    widenRows_eq hp.layout.toTiled (Nat.le_of_eq (Nat.zero_add _))
  rw [widen, Rows.require, if_pos hsquare, Rows.ok_bind, huniform, Rows.ok_bind, hrows]

private theorem wideColumns_lt (hrow : row < p.nRows) (hcol : col ∈ wideColumns p reach row) :
    col < p.nRows := by
  rcases List.mem_append.1 hcol with hcol | hcol
  · obtain ⟨c, hc, rfl⟩ := List.mem_map.1 hcol
    rw [hsquare]
    exact hp.layout.column_lt c (Layout.mem_columns_of_mem_rowList hc)
  · exact ((mem_band hrow).1 hcol).1

private theorem lt_of_mem_widePairs {r c : Nat} (hmem : (r, c) ∈ widePairs p reach 0 p.nRows) :
    r < p.nRows ∧ c < p.nRows := by
  obtain ⟨⟨-, hr⟩, hc⟩ := mem_rowPairs.1 hmem
  rw [Nat.zero_add] at hr
  exact ⟨hr, wideColumns_lt hp hsquare hr hc⟩

/-- Between them, the first draft and the insertions have what the rows ask for: a leading diagonal
is asked for again. -/
private theorem mem_widenBase_or_widePairs {r c : Nat} :
    (widenBase p wanted).contains r c = true ∨ (r, c) ∈ widePairs p reach 0 p.nRows ↔
      r < p.nRows ∧ c ∈ wideColumns p reach r := by
  rw [widenBase, contains_reserved (hsquare ▸ hp.layout.nCols_lt) List.length_replicate,
    leads_widen, widePairs, mem_rowPairs, Nat.zero_add, and_iff_right (Nat.zero_le r)]
  constructor
  · rintro (⟨hr, hlead, rfl⟩ | hc)
    · exact ⟨hr, mem_wideColumns_of_leads hp hr hlead⟩
    · exact hc
  · exact Or.inr

/-- The insertions aim at what the rows ask for. -/
private theorem widenBase_outcome :
    ((widenBase p wanted).insertPairs (widePairs p reach 0 p.nRows)).Outcome fun r c =>
      r < p.nRows ∧ c ∈ wideColumns p reach r := by
  have hwf : (widenBase p wanted).WellFormed := wellFormed_widenBase hp hsquare
  refine (insertPairs_outcome hwf fun r c => lt_of_mem_widePairs hp hsquare).congr fun r c => ?_
  exact mem_widenBase_or_widePairs hp hsquare

variable (hfits : Fits p.nRows (p.nRows * reservation p.nRows p.diagonalFirst wanted))
include hfits

/-- Widening comes to its end exactly if every row has room for its columns. -/
theorem exists_widen_iff :
    (∃ d, widen p wanted reach = .ok d) ↔
      ∀ row < p.nRows,
        (wideColumns p reach row).toFinset.card ≤ reservation p.nRows p.diagonalFirst wanted := by
  have hwf : (widenBase p wanted).WellFormed := wellFormed_widenBase hp hsquare
  have hends := @widenBase_outcome p wanted reach hp hsquare
  have hcolumns : ∀ r < p.nRows, ∀ c,
      c ∈ (wideColumns p reach r).toFinset ↔ r < p.nRows ∧ c ∈ wideColumns p reach r := by
    intro r hr c
    rw [List.mem_toFinset, and_iff_right hr]
  have hroom := hends.failure_eq_none_iff hwf (grows_insertPairs hwf _) hcolumns
  rw [widen_eq hp hsquare hfits]
  simp only [Progress.finished_eq_ok_iff, exists_eq_right', hroom]
  refine forall₂_congr fun row (hrow : row < p.nRows) => ?_
  rw [capacity_widenBase hrow]

/-- A draft that is started from a pattern has its dimensions and policy, and records its entries
and the band. -/
theorem contains_widen (h : widen p wanted reach = .ok d) :
    (d.nRows = p.nRows ∧ d.nCols = p.nCols ∧ d.diagonalFirst = p.diagonalFirst) ∧
      ∀ r c, d.contains r c = true ↔ r < p.nRows ∧ c ∈ wideColumns p reach r := by
  have hwf : (widenBase p wanted).WellFormed := wellFormed_widenBase hp hsquare
  rw [widen_eq hp hsquare hfits] at h
  obtain ⟨hnone, rfl⟩ := Progress.finished_eq_ok_iff.1 h
  have hshape := (grows_insertPairs hwf (widePairs p reach 0 p.nRows)).sameShape
  refine ⟨⟨hshape.nRows_eq, hshape.nCols_eq.trans hsquare,
    hshape.diagonalFirst_eq.trans (leads_widen p)⟩, ?_⟩
  intro r c
  exact (widenBase_outcome hp hsquare).contains_iff_of_failure_eq_none hnone

/-- Widening that is stopped is stopped at the first row without room for its columns. -/
theorem exists_rowFull_of_widen {fault : Fault} (h : widen p wanted reach = .error fault) :
    ∃ row < p.nRows, fault = .rowFull row (reservation p.nRows p.diagonalFirst wanted) ∧
      reservation p.nRows p.diagonalFirst wanted < (wideColumns p reach row).toFinset.card ∧
      ∀ r < row, (wideColumns p reach r).toFinset.card ≤
        reservation p.nRows p.diagonalFirst wanted := by
  have hwf : (widenBase p wanted).WellFormed := wellFormed_widenBase hp hsquare
  rw [widen_eq hp hsquare hfits] at h
  have hcolumns : ∀ r < p.nRows, ∀ c, c ∈ (wideColumns p reach r).toFinset ↔
      (widenBase p wanted).contains r c = true ∨ (r, c) ∈ widePairs p reach 0 p.nRows := by
    intro r hr c
    rw [mem_widenBase_or_widePairs hp hsquare, List.mem_toFinset, and_iff_right hr]
  obtain ⟨row, hrow, hfault, hfull, hbefore⟩ :=
    exists_first_rowFull hwf (fun r c => lt_of_mem_widePairs hp hsquare) pairwise_rowPairs hcolumns
      (Progress.finished_eq_error_iff.1 h)
  have hrow : row < p.nRows := hrow
  rw [capacity_widenBase hrow] at hfault hfull
  refine ⟨row, hrow, hfault, hfull, fun r hr => ?_⟩
  have hroom := hbefore r hr
  rwa [capacity_widenBase (Nat.lt_trans hr hrow)] at hroom

end Square

/-! ### What a wider draft holds -/

/-- The columns of `row` in the wider pattern: those that the pattern has, and all off the diagonal
that are at most `reach` away from it. -/
def widened (p : Pattern) (reach row : Nat) : Finset Nat :=
  ((p.rowList row).map UInt32.toNat).toFinset ∪
    (Finset.range p.nRows).filter fun col => col ≠ row ∧ distance row col ≤ reach

private theorem toFinset_wideColumns (hrow : row < p.nRows) :
    (wideColumns p reach row).toFinset = widened p reach row := by
  ext c
  simp only [wideColumns, widened, List.toFinset_append, Finset.mem_union,
    List.mem_toFinset (a := c) (l := band ..), mem_band hrow, Finset.mem_filter, Finset.mem_range]

private theorem contains_pattern_iff (hp : p.WellFormed) {r c : Nat} :
    Compressed.contains p r c = .ok true ↔ r < p.nRows ∧ c ∈ (p.rowList r).map UInt32.toNat := by
  have hl : (Compressed.layout p).WellFormed := hp.layout
  rw [Compressed.contains_eq_true_iff hl, List.mem_map]
  constructor
  · rintro ⟨index, he⟩
    exact ⟨he.row_lt, (Layout.exists_entryAt_iff_mem hl he.row_lt).1 ⟨index, he⟩⟩
  · rintro ⟨hr, hc⟩
    exact (Layout.exists_entryAt_iff_mem hl hr).2 hc

/-- The columns of a wider row are those of the pattern and those of the band. -/
private theorem mem_widened (hp : p.WellFormed) :
    row < p.nRows ∧ col ∈ widened p reach row ↔
      Compressed.contains p row col = .ok true ∨
        row < p.nRows ∧ col < p.nRows ∧ col ≠ row ∧ distance row col ≤ reach := by
  rw [contains_pattern_iff hp, widened, Finset.mem_union, List.mem_toFinset, Finset.mem_filter,
    Finset.mem_range]
  exact and_or_left

/-- The band is its own mirror image. -/
private theorem mem_widened_of_symmetric (hp : p.WellFormed) (hsymm : p.Symmetric)
    (h : row < p.nRows ∧ col ∈ widened p reach row) :
    col < p.nRows ∧ row ∈ widened p reach col := by
  rw [mem_widened hp] at h ⊢
  rcases h with hcontains | ⟨hrow, hcol, hne, hreach⟩
  · exact .inl (hsymm row col hcontains)
  · have hmirror : distance col row = distance row col := Nat.max_comm _ _
    exact .inr ⟨hcol, hrow, hne.symm, hmirror ▸ hreach⟩

/-- The draft is the pattern with room for `wanted` entries in each row, and holds the band of
`reach` besides. -/
structure Widens (d : Draft) (p : Pattern) (wanted reach : Nat) : Prop where
  nRows_eq : d.nRows = p.nRows
  nCols_eq : d.nCols = p.nCols
  diagonalFirst_eq : d.diagonalFirst = p.diagonalFirst
  rowCapacity_eq : ∀ row < p.nRows,
    d.rowCapacity row = .ok (reservation p.nRows p.diagonalFirst wanted)
  rowLength_eq : ∀ row < p.nRows, d.rowLength row = .ok (widened p reach row).card
  contains_iff : ∀ row col, d.contains row col = true ↔ row < p.nRows ∧ col ∈ widened p reach row
  compress : ∃ q, d.compress = .ok q ∧
    (∀ row col, Compressed.contains p row col = .ok true →
      Compressed.contains q row col = .ok true) ∧
    (p.Symmetric → q.Symmetric)

private theorem Widens.of_widen (hp : p.WellFormed) (hsquare : p.nRows = p.nCols)
    (hfits : Fits p.nRows (p.nRows * reservation p.nRows p.diagonalFirst wanted))
    (h : widen p wanted reach = .ok d) : d.Widens p wanted reach := by
  obtain ⟨⟨hrows, hcols, hflag⟩, hcontains⟩ := contains_widen hp hsquare hfits h
  have hbase : (widenBase p wanted).WellFormed := wellFormed_widenBase hp hsquare
  rw [widen_eq hp hsquare hfits] at h
  obtain ⟨-, hdraft⟩ := Progress.finished_eq_ok_iff.1 h
  have hgrows : (widenBase p wanted).Grows d := hdraft ▸ grows_insertPairs hbase _
  have hwf : d.WellFormed := hgrows.wellFormed hbase
  have hholds : ∀ row col, d.contains row col = true ↔
      row < p.nRows ∧ col ∈ widened p reach row := by
    intro row col
    rw [hcontains]
    refine and_congr_right fun hrow => ?_
    rw [← toFinset_wideColumns hrow, List.mem_toFinset]
  have hanswer : ∀ row col, Compressed.contains d.compressed row col = .ok true ↔
      d.contains row col = true := by
    intro row col
    rw [contains_compressed hwf, Except.ok.injEq]
  constructor
  case nRows_eq => exact hrows
  case nCols_eq => exact hcols
  case diagonalFirst_eq => exact hflag
  case contains_iff => exact hholds
  case rowCapacity_eq =>
    intro row hrow
    rw [rowCapacity, if_pos (hrows.symm ▸ hrow), hgrows.sameShape.capacity_eq,
      capacity_widenBase hrow]
  case rowLength_eq =>
    intro row hrow
    have hrow' : row < d.nRows := hrows.symm ▸ hrow
    have hset : d.entrySet row = widened p reach row := by
      ext col
      rw [mem_entrySet hrow', hholds, and_iff_right hrow]
    rw [rowLength, if_pos hrow', ← card_entrySet hwf hrow', hset]
  case compress =>
    refine ⟨d.compressed, compress_eq hwf, fun row col hcol => ?_, fun hsymm row col hcol => ?_⟩
    · rw [hanswer, hholds, mem_widened hp]
      exact .inl hcol
    · rw [hanswer, hholds] at hcol ⊢
      exact mem_widened_of_symmetric hp hsymm hcol

/-- A pattern that is not square cannot be widened.  A square one whose draft fits the memory can
exactly if no row needs more slots than are reserved, each column counted once however often it is
asked for; the draft then is the pattern with the band.  Otherwise the first row that needs more is
named. -/
theorem widen_exact (hp : p.WellFormed) (wanted reach : Nat) :
    (p.nRows ≠ p.nCols → widen p wanted reach = .error (.notSquare p.nRows p.nCols)) ∧
    (p.nRows = p.nCols → Fits p.nRows (p.nRows * reservation p.nRows p.diagonalFirst wanted) →
      ((∃ d, widen p wanted reach = .ok d) ↔
        ∀ row < p.nRows, (widened p reach row).card ≤ reservation p.nRows p.diagonalFirst wanted) ∧
      (∀ d, widen p wanted reach = .ok d → d.Widens p wanted reach) ∧
      ∀ fault, widen p wanted reach = .error fault → ∃ row < p.nRows,
        fault = .rowFull row (reservation p.nRows p.diagonalFirst wanted) ∧
        reservation p.nRows p.diagonalFirst wanted < (widened p reach row).card ∧
        ∀ r < row, (widened p reach r).card ≤ reservation p.nRows p.diagonalFirst wanted) := by
  refine ⟨fun hsquare => ?_,
    fun hsquare hfits => ⟨?_, fun d hd => .of_widen hp hsquare hfits hd, fun fault hfault => ?_⟩⟩
  · rw [widen, Rows.require, if_neg hsquare]
    rfl
  · rw [exists_widen_iff hp hsquare hfits]
    refine forall₂_congr fun row hrow => ?_
    rw [toFinset_wideColumns hrow]
  · obtain ⟨row, hrow, rfl, hfull, hbefore⟩ := exists_rowFull_of_widen hp hsquare hfits hfault
    rw [toFinset_wideColumns hrow] at hfull
    refine ⟨row, hrow, rfl, hfull, fun r hr => ?_⟩
    rw [← toFinset_wideColumns (Nat.lt_trans hr hrow)]
    exact hbefore r hr

/-- The pattern of the diagonal of a square with three rows. -/
def diagonal : Pattern := ⟨⟨3, 3, #[0, 1, 2, 3], #[0, 1, 2], true⟩, 1⟩

theorem widen_exact_diagonal :
    diagonal.WellFormed ∧ widen diagonal 2 1 = .error (.rowFull 1 2) ∧
      ∃ d, widen diagonal 3 1 = .ok d ∧ d.rowCapacity 0 = .ok 3 ∧ d.rowLength 0 = .ok 2 ∧
        d.rowLength 1 = .ok 3 := by
  have hp : diagonal.WellFormed := by decide
  refine ⟨hp, ?_, ?_⟩
  · obtain ⟨hends, -, hfirst⟩ := (widen_exact hp 2 1).2 rfl (by decide)
    cases hwiden : widen diagonal 2 1 with
    | ok d => exact absurd (hends.1 ⟨d, hwiden⟩ 1 (by decide)) (by decide)
    | error fault =>
      obtain ⟨row, hrow, rfl, hfull, hbefore⟩ := hfirst fault hwiden
      -- the first row has room, the second has none
      rcases row with _ | _ | row
      · exact absurd hfull (by decide)
      · rfl
      · exact absurd (hbefore 1 (by omega)) (by decide)
  · obtain ⟨hends, hwidens, -⟩ := (widen_exact hp 3 1).2 rfl (by decide)
    obtain ⟨d, hd⟩ := hends.2 (by decide)
    have hwide := hwidens d hd
    exact ⟨d, hd, hwide.rowCapacity_eq 0 (by decide), hwide.rowLength_eq 0 (by decide),
      hwide.rowLength_eq 1 (by decide)⟩

end Draft

end SparsePattern
