import SparsePattern.Draft
import SparsePattern.Proofs.Layout.Packing

/-!
# Well-formed drafts

`Draft.WellFormed` is what every draft satisfies as long as it is built: the reservations tile the
slots, and in each of them the recorded columns come first, each once, with the diagonal in front
where it leads (`Draft.Window`).  A draft that packs such windows is well-formed
(`WellFormed.of_packs`).
-/

namespace SparsePattern.Draft

/-- The slots of a draft as the columns of a layout. -/
def layout (d : Draft) : Layout where
  nRows := d.nRows
  nCols := d.nCols
  rowStart := d.rowStart
  columns := d.slots
  diagonalFirst := d.diagonalFirst

/-- The layout of a draft leaves nothing of it open. -/
theorem eq_of_layout_eq {d e : Draft} (h : d.layout = e.layout) : d = e := by
  cases d
  cases e
  cases h
  rfl

/-! ### One row -/

/-- What the reserved slots of a row satisfy. -/
structure Window (nCols : Nat) (diagonalFirst : Bool) (row : Nat) (slots : List UInt32) : Prop where
  length_le : slots.length ≤ nCols
  spare_free : slots = occupied slots ++
    List.replicate (slots.length - (occupied slots).length) free
  nodup : (occupied slots).Nodup
  column_lt : ∀ c ∈ occupied slots, c.toNat < nCols
  leads : diagonalFirst = true → (occupied slots).head? = some row.toUInt32

/-- No column in range is taken for the mark of a free slot. -/
theorem ne_free_of_lt {nCols : Nat} {c : UInt32} (hcols : nCols < columnLimit)
    (hc : c.toNat < nCols) : c ≠ free := by
  rintro rfl
  have hfree : free.toNat = columnLimit - 1 := rfl
  omega

/-- The occupied slots of a row end where the free ones begin. -/
theorem occupied_append {columns : List UInt32} (spare : Nat) (h : ∀ c ∈ columns, c ≠ free) :
    occupied (columns ++ List.replicate spare free) = columns := by
  have hfree : (List.replicate spare free).takeWhile (· != free) = [] := by
    cases spare <;> simp [List.replicate_succ]
  rw [occupied, List.takeWhile_append_of_pos (by simpa using h), hfree, List.append_nil]

/-- Distinct columns in range with free slots behind them fill a row, if the diagonal stands first
where it leads. -/
theorem Window.of_append {nCols row : Nat} {diagonalFirst : Bool} (columns : List UInt32)
    (spare : Nat) (hcols : nCols < columnLimit) (hlen : columns.length + spare ≤ nCols)
    (hnodup : columns.Nodup) (hlt : ∀ c ∈ columns, c.toNat < nCols)
    (hlead : diagonalFirst = true → columns.head? = some row.toUInt32) :
    Window nCols diagonalFirst row (columns ++ List.replicate spare free) := by
  have hocc := occupied_append spare fun c hc => ne_free_of_lt hcols (hlt c hc)
  constructor
  case length_le => rwa [List.length_append, List.length_replicate]
  case spare_free => rw [hocc, List.length_append, List.length_replicate, Nat.add_sub_cancel_left]
  case nodup => rwa [hocc]
  case column_lt => rwa [hocc]
  case leads => rwa [hocc]

/-! ### All rows -/

/-- What a draft satisfies as long as it is built. -/
structure WellFormed (d : Draft) : Prop where
  nCols_lt : d.nCols < columnLimit
  square : d.diagonalFirst = true → d.nRows = d.nCols
  tiled : d.layout.Tiled
  windows : ∀ row < d.nRows, Window d.nCols d.diagonalFirst row (d.window row)

theorem window_of_packs {d : Draft} {rows : List (List UInt32)} (hpacks : d.layout.Packs rows)
    {row : Nat} (hrow : row < rows.length) : d.window row = rows[row] := hpacks.rowList_eq hrow

theorem capacity_of_packs {d : Draft} {rows : List (List UInt32)} (hpacks : d.layout.Packs rows)
    {row : Nat} (hrow : row < rows.length) : d.capacity row = rows[row].length := by
  have hstop : d.start (row + 1) = d.start row + rows[row].length := hpacks.start_succ hrow
  rw [capacity, hstop, Nat.add_sub_cancel_left]

/-- A draft is well-formed if its slots are the rows packed one after another and each row is in
order. -/
theorem WellFormed.of_packs {d : Draft} {rows : List (List UInt32)} (hcols : d.nCols < columnLimit)
    (hsquare : d.diagonalFirst = true → d.nRows = d.nCols) (hpacks : d.layout.Packs rows)
    (hrows : ∀ row, (h : row < rows.length) → Window d.nCols d.diagonalFirst row rows[row]) :
    d.WellFormed := by
  refine ⟨hcols, hsquare, hpacks.tiled, fun row hrow => ?_⟩
  have hlt : row < rows.length := by rw [← hpacks.nRows_eq]; exact hrow
  rw [window_of_packs hpacks hlt]
  exact hrows row hlt

namespace WellFormed

variable {d : Draft}

theorem length_window (h : d.WellFormed) {row : Nat} (hrow : row < d.nRows) :
    (d.window row).length = d.capacity row := h.tiled.length_rowList hrow

end WellFormed

end SparsePattern.Draft
