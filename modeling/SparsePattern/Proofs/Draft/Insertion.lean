import Mathlib.Data.List.Nodup
import Mathlib.Logic.Relation
import SparsePattern.Draft.Insert
import SparsePattern.Proofs.Draft.Windows

/-!
# Insertions only place columns

Every operation that records entries, whether it ends or stops early, comes to placing missing
columns one by one behind the recorded ones of rows with a free slot (`Draft.Grows`).  What one
placement keeps, all of them keep (`Grows.wellFormed`).
-/

namespace SparsePattern

/-! ### Writing one column of a layout -/

namespace Layout

variable {l : Layout}

/-- The layout with another column at position `i`. -/
def write (l : Layout) (i : Nat) (c : UInt32) : Layout :=
  { l with columns := l.columns.setIfInBounds i c }

private theorem Tiled.write (h : l.Tiled) (i : Nat) (c : UInt32) : (l.write i c).Tiled :=
  ⟨h.size_rowStart, h.first_offset, h.last_offset.trans (by simp [Layout.write]), h.offset_le⟩

private theorem rowList_write_of_le {i row : Nat} {c : UInt32} (hrow : l.start row ≤ i) :
    (l.write i c).rowList row = (l.rowList row).set (i - l.start row) c := by
  rw [rowList_eq, rowList_eq]
  show ((l.columns.setIfInBounds i c).toList.drop (l.start row)).take
    (l.start (row + 1) - l.start row) = _
  rw [Array.toList_setIfInBounds, List.drop_set, if_neg (Nat.not_lt_of_le hrow), List.take_set]

private theorem rowList_write_of_not_mem {i row : Nat} {c : UInt32}
    (hrow : i < l.start row ∨ l.start (row + 1) ≤ i) :
    (l.write i c).rowList row = l.rowList row := by
  by_cases hlt : i < l.start row
  · rw [rowList_eq, rowList_eq]
    show ((l.columns.setIfInBounds i c).toList.drop (l.start row)).take
      (l.start (row + 1) - l.start row) = _
    rw [Array.toList_setIfInBounds, List.drop_set_of_lt hlt]
  · have hbeyond : (l.rowList row).length ≤ i - l.start row := by
      rw [rowList_eq, List.length_take]
      omega
    rw [rowList_write_of_le (Nat.le_of_not_lt hlt), List.set_eq_of_length_le hbeyond]

end Layout

namespace Draft

variable {d e : Draft}

/-! ### Finding a slot -/

private theorem toList_extract_succ {slots : Array UInt32} {slot count : Nat}
    (h : slot < slots.size) :
    (slots.extract slot (slot + (count + 1))).toList =
      slots.getD slot free :: (slots.extract (slot + 1) (slot + 1 + count)).toList := by
  rw [Array.toList_extract, Array.toList_extract, List.extract_eq_take_drop,
    List.extract_eq_take_drop, List.drop_eq_getElem_cons (by simpa using h),
    Nat.add_sub_cancel_left, Nat.add_sub_cancel_left, List.take_succ_cons]
  simp [Array.getD, h]

private theorem occupied_cons_free (slots : List UInt32) : occupied (free :: slots) = [] := by
  simp [occupied]

private theorem occupied_cons_of_ne {c : UInt32} {slots : List UInt32} (h : c ≠ free) :
    occupied (c :: slots) = c :: occupied slots := by
  simp [occupied, h]

/-- A probe finds what the occupied slots say. -/
private theorem probe_eq {slots : Array UInt32} {col : UInt32} {slot count : Nat}
    (hcol : col ≠ free) (hle : slot + count ≤ slots.size) {columns : List UInt32}
    (hcolumns : occupied (slots.extract slot (slot + count)).toList = columns) :
    probe slots col slot count =
      if col ∈ columns then .present
      else if columns.length < count then .room (slot + columns.length)
      else .full := by
  induction count generalizing slot columns with
  | zero =>
    subst hcolumns
    rw [Nat.add_zero, Array.extract_empty_of_stop_le_start (Nat.le_refl slot)]
    rfl
  | succ count ih =>
    rw [toList_extract_succ (by omega)] at hcolumns
    rw [probe]
    -- the first slot holds the column, is free, or leaves the answer to the slots behind it
    generalize slots.getD slot free = held at hcolumns
    by_cases hpresent : held = col
    · rw [occupied_cons_of_ne (hpresent ▸ hcol)] at hcolumns
      subst hcolumns
      simp [hpresent]
    by_cases hfree : held = free
    · subst hfree
      rw [occupied_cons_free] at hcolumns
      subst hcolumns
      simp [hpresent]
    · rw [occupied_cons_of_ne hfree] at hcolumns
      subst hcolumns
      have hmem : ∀ columns, col ∈ held :: columns ↔ col ∈ columns := by
        intro columns
        rw [List.mem_cons, or_iff_right (Ne.symm hpresent)]
      have hrest := @ih (slot + 1) (by omega) _ rfl
      simp only [hpresent, hfree, ↓reduceIte, hrest, hmem, List.length_cons,
        Nat.add_lt_add_iff_right, Nat.add_right_comm slot 1, ← Nat.add_assoc]

/-! ### Placing a column -/

/-- The draft with one more column behind those recorded in `row`. -/
def place (d : Draft) (row : Nat) (c : UInt32) : Draft :=
  { d with slots := d.slots.setIfInBounds (d.start row + (d.recorded row).length) c }

/-- Column `c` is missing in `row`, and a slot is free for it. -/
structure Room (d : Draft) (row : Nat) (c : UInt32) : Prop where
  row_lt : row < d.nRows
  column_lt : c.toNat < d.nCols
  not_mem : c ∉ d.recorded row
  length_lt : (d.recorded row).length < d.capacity row

/-- The slots of a row are its recorded columns and free ones behind them. -/
theorem window_eq (h : d.WellFormed) {row : Nat} (hrow : row < d.nRows) :
    d.window row = d.recorded row ++
      List.replicate (d.capacity row - (d.recorded row).length) free := by
  rw [← h.length_window hrow]
  exact (h.windows row hrow).spare_free

/-- A placed column takes the first free slot. -/
private theorem window_place_self (h : d.WellFormed) {row : Nat} {c : UInt32} (hr : d.Room row c) :
    (d.place row c).window row =
      (d.recorded row ++ [c]) ++
        List.replicate (d.capacity row - (d.recorded row).length - 1) free := by
  have hwrite : (d.place row c).window row = (d.window row).set (d.recorded row).length c := by
    have hle : d.layout.start row ≤ d.layout.start row + (d.recorded row).length :=
      Nat.le_add_right ..
    have hset := Layout.rowList_write_of_le (c := c) hle
    rwa [Nat.add_sub_cancel_left] at hset
  have hspare : 0 < d.capacity row - (d.recorded row).length := Nat.sub_pos_of_lt hr.length_lt
  have hreplicate : List.replicate (d.capacity row - (d.recorded row).length) free =
      free :: List.replicate (d.capacity row - (d.recorded row).length - 1) free := by
    rw [← List.replicate_succ, Nat.sub_add_cancel hspare]
  rw [hwrite, window_eq h hr.row_lt, List.set_append_right _ _ (Nat.le_refl _), Nat.sub_self,
    hreplicate, List.set_cons_zero, List.append_assoc]
  rfl

/-- Placing a column changes no other row. -/
theorem window_place_of_ne (h : d.WellFormed) {row r : Nat} {c : UInt32} (hr : d.Room row c)
    (hlt : r < d.nRows) (hne : r ≠ row) : (d.place row c).window r = d.window r := by
  have hroom := hr.length_lt
  rw [capacity] at hroom
  refine Layout.rowList_write_of_not_mem (l := d.layout) ?_
  -- the slot written is one of `row`, and no two rows share a slot
  show d.start row + _ < d.start r ∨ d.start (r + 1) ≤ d.start row + _
  rcases Nat.lt_or_gt_of_ne hne with hbelow | habove
  · have : d.start (r + 1) ≤ d.start row := h.tiled.start_mono hbelow (Nat.le_of_lt hr.row_lt)
    exact .inr (by omega)
  · have : d.start (row + 1) ≤ d.start r := h.tiled.start_mono habove (Nat.le_of_lt hlt)
    exact .inl (by omega)

private theorem column_lt_of_mem_append (h : d.WellFormed) {row : Nat} {b c : UInt32}
    (hr : d.Room row c) (hb : b ∈ d.recorded row ++ [c]) : b.toNat < d.nCols := by
  rcases List.mem_append.1 hb with hb | hb
  · exact (h.windows row hr.row_lt).column_lt b hb
  · rw [List.mem_singleton.1 hb]
    exact hr.column_lt

/-- A placed column is recorded behind the others of its row. -/
theorem recorded_place_self (h : d.WellFormed) {row : Nat} {c : UInt32} (hr : d.Room row c) :
    (d.place row c).recorded row = d.recorded row ++ [c] := by
  rw [recorded, window_place_self h hr, occupied_append]
  intro b hb
  exact ne_free_of_lt h.nCols_lt (column_lt_of_mem_append h hr hb)

theorem recorded_place_of_ne (h : d.WellFormed) {row r : Nat} {c : UInt32} (hr : d.Room row c)
    (hlt : r < d.nRows) (hne : r ≠ row) : (d.place row c).recorded r = d.recorded r := by
  rw [recorded, window_place_of_ne h hr hlt hne, recorded]

private theorem wellFormed_place (h : d.WellFormed) {row : Nat} {c : UInt32} (hr : d.Room row c) :
    (d.place row c).WellFormed := by
  refine ⟨h.nCols_lt, h.square, h.tiled.write _ _, fun r hlt => ?_⟩
  by_cases hne : r = row
  · subst hne
    have hw := h.windows r hlt
    have hroom := hr.length_lt
    have hcapacity := h.length_window hlt
    have hle := hw.length_le
    rw [window_place_self h hr]
    refine .of_append _ _ h.nCols_lt ?_ ?_ ?_ ?_
    · show _ ≤ d.nCols
      rw [List.length_append, List.length_singleton]
      omega
    · refine List.nodup_append.2 ⟨hw.nodup, List.nodup_singleton c, ?_⟩
      rintro a ha b hb rfl
      rw [List.mem_singleton.1 hb] at ha
      exact hr.not_mem ha
    · exact fun b hb => column_lt_of_mem_append h hr hb
    · intro hd
      rw [List.head?_append, show (d.recorded r).head? = some r.toUInt32 from hw.leads hd]
      rfl
  · rw [window_place_of_ne h hr hlt hne]
    exact h.windows r hlt

/-! ### Growing -/

/-- One column placed. -/
def Placing (d e : Draft) : Prop := ∃ row c, d.Room row c ∧ e = d.place row c

/-- Any number of columns placed, one after another. -/
abbrev Grows : Draft → Draft → Prop := Relation.ReflTransGen Placing

/-- Growing keeps a draft well-formed. -/
theorem Grows.wellFormed (hg : d.Grows e) (h : d.WellFormed) : e.WellFormed := by
  induction hg with
  | refl => exact h
  | tail _ hp ih =>
    obtain ⟨row, c, hr, rfl⟩ := hp
    exact wellFormed_place ih hr

/-! ### Insertions -/

/-- An insertion within the dimensions: nothing for a recorded column, a placement while there is
room, and a refusal otherwise. -/
theorem insert_eq (h : d.WellFormed) {row col : Nat} (hrow : row < d.nRows) (hcol : col < d.nCols) :
    d.insert row col =
      if col.toUInt32 ∈ d.recorded row then { draft := d }
      else if (d.recorded row).length < d.capacity row then { draft := d.place row col.toUInt32 }
      else { draft := d, failure := some (.rowFull row (d.capacity row)) } := by
  have hle : d.start row ≤ d.start (row + 1) := h.tiled.offset_le row hrow
  have hsize : d.start (row + 1) ≤ d.slots.size := h.tiled.start_le_size (r := row + 1) hrow
  have hnat : col.toUInt32.toNat = col := toNat_toUInt32 (Nat.lt_trans hcol h.nCols_lt)
  have hfree : col.toUInt32 ≠ free := ne_free_of_lt h.nCols_lt (hnat.symm ▸ hcol)
  have hstop : d.start row + d.capacity row = d.start (row + 1) := by rw [capacity]; omega
  have hrecorded :
      occupied (d.slots.extract (d.start row) (d.start row + d.capacity row)).toList =
        d.recorded row := by
    rw [hstop]
    rfl
  rw [insert, if_neg (Nat.not_le_of_lt hrow), if_neg (Nat.not_le_of_lt hcol),
    probe_eq hfree (by omega) hrecorded]
  by_cases hmem : col.toUInt32 ∈ d.recorded row
  · simp only [hmem, ↓reduceIte]
  by_cases hroom : (d.recorded row).length < d.capacity row
  · simp only [hmem, hroom, ↓reduceIte]
    rfl
  · simp only [hmem, hroom, ↓reduceIte]

/-- An insertion grows the draft, by nothing if it is refused. -/
theorem grows_insert (h : d.WellFormed) (row col : Nat) : d.Grows (d.insert row col).draft := by
  by_cases hrow : d.nRows ≤ row
  · rw [insert, if_pos hrow]
  by_cases hcol : d.nCols ≤ col
  · rw [insert, if_neg hrow, if_pos hcol]
  rw [Nat.not_le] at hrow hcol
  rw [insert_eq h hrow hcol]
  split
  · exact .refl
  · split
    · have hnat : col.toUInt32.toNat = col := toNat_toUInt32 (Nat.lt_trans hcol h.nCols_lt)
      exact .single ⟨row, _, ⟨hrow, hnat.symm ▸ hcol, ‹_›, ‹_›⟩, rfl⟩
    · exact .refl

private theorem Grows.andThen {p : Progress} {next : Draft → Progress} (hp : d.Grows p.draft)
    (hnext : p.draft.Grows (next p.draft).draft) : d.Grows (p.andThen next).draft := by
  rw [Progress.andThen]
  split
  · exact hp.trans hnext
  · exact hp

/-- Several insertions grow the draft, up to the first that is refused. -/
theorem grows_insertPairs (h : d.WellFormed) (entries : List (Nat × Nat)) :
    d.Grows (d.insertPairs entries).draft := by
  induction entries generalizing d with
  | nil => exact .refl
  | cons entry entries ih =>
    obtain ⟨row, col⟩ := entry
    have hone := grows_insert h row col
    exact hone.andThen (ih (hone.wellFormed h))

theorem grows_transposeSlots (h : d.WellFormed) (row slot count : Nat) :
    d.Grows (d.transposeSlots row slot count).draft := by
  induction count generalizing d slot with
  | zero => exact .refl
  | succ count ih =>
    rw [transposeSlots]
    split
    · exact .refl
    · have hone := grows_insert h (d.slots.getD slot free).toNat row
      exact hone.andThen (ih (hone.wellFormed h) (slot + 1))

private theorem grows_transposeRows (h : d.WellFormed) (row count : Nat) :
    d.Grows (d.transposeRows row count).draft := by
  induction count generalizing d row with
  | zero => exact .refl
  | succ count ih =>
    have hrow := grows_transposeSlots h row (d.start row) (d.capacity row)
    exact hrow.andThen (ih (hrow.wellFormed h) (row + 1))

theorem grows_insertRow (h : d.WellFormed) (row : Nat) (cols : List Nat) :
    d.Grows (d.insertRow row cols).draft :=
  grows_insertPairs h _

/-- Symmetrizing grows the draft, also where it is stopped. -/
theorem grows_symmetrize (h : d.WellFormed) : d.Grows d.symmetrize.draft := by
  rw [symmetrize]
  split
  · exact grows_transposeRows h 0 d.nRows
  · exact .refl

end Draft

end SparsePattern
