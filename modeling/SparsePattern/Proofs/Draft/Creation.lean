import Mathlib.Data.Finset.Basic
import SparsePattern.Draft.Rows
import SparsePattern.Draft.Widen
import SparsePattern.Proofs.Distinct
import SparsePattern.Proofs.Draft.Insertion
import SparsePattern.Proofs.Layout.Lengths

/-!
# New drafts are well-formed

However a draft is created, with reservations (`wellFormed_uniform`, `wellFormed_ofReservations`),
with rows (`wellFormed_ofRows`) or from a pattern (`wellFormed_widen`), it is well-formed from the
start.
-/

namespace SparsePattern

open Rows (require require_bind_eq_ok bind_eq_ok)

/-- The diagonal leads in square patterns only. -/
theorem Policy.eq_of_leads {policy : Policy} {nRows nCols : Nat}
    (h : policy.leads nRows nCols = true) : nRows = nCols := by
  rw [leads, Bool.and_eq_true] at h
  exact eq_of_beq h.2

theorem Policy.leads_self (policy : Policy) (n : Nat) :
    policy.leads n n = policy.diagonalFirst := by
  simp [Policy.leads]

theorem Policy.lt_of_leads {policy : Policy} {nRows nCols row : Nat}
    (h : policy.leads nRows nCols = true) (hrow : row < nRows) : row < nCols := eq_of_leads h ▸ hrow

namespace Draft

theorem wellFormed_empty : empty.WellFormed := by
  have hpacks : empty.layout.Packs [] := ⟨rfl, rfl, rfl⟩
  refine .of_packs (by decide) (fun h => by cases h) hpacks ?_
  intro row hrow
  cases hrow

/-! ### Reservations -/

/-- A blank row records nothing, or just the leading diagonal. -/
private theorem window_blankRow {nCols row capacity : Nat} {diagonalFirst : Bool}
    (hcols : nCols < columnLimit) (hle : capacity ≤ nCols)
    (hlead : diagonalFirst = true → 0 < capacity ∧ row < nCols) :
    Window nCols diagonalFirst row (blankRow diagonalFirst row capacity) := by
  cases diagonalFirst with
  | false =>
    exact .of_append [] capacity hcols (by simpa using hle) .nil (fun c hc => by cases hc)
      (fun h => by cases h)
  | true =>
    obtain ⟨hpos, hrow⟩ := hlead rfl
    have hnat : row.toUInt32.toNat = row := toNat_toUInt32 (Nat.lt_trans hrow hcols)
    refine .of_append [row.toUInt32] (capacity - 1) hcols ?_ (List.nodup_singleton _)
      ?_ fun _ => rfl
    · rw [List.length_singleton]
      omega
    · intro c hc
      rw [List.mem_singleton.1 hc, hnat]
      exact hrow

private theorem length_blankRow {row capacity : Nat} {diagonalFirst : Bool}
    (h : diagonalFirst = true → 0 < capacity) :
    (blankRow diagonalFirst row capacity).length = capacity := by
  cases diagonalFirst with
  | false => exact List.length_replicate
  | true =>
    have := h rfl
    simp only [blankRow, ↓reduceIte, List.length_cons, List.length_replicate]
    omega

private theorem reservation_le {nCols wanted : Nat} {diagonalFirst : Bool}
    (h : diagonalFirst = true → 0 < nCols) : reservation nCols diagonalFirst wanted ≤ nCols := by
  cases diagonalFirst with
  | false => simp only [reservation, Bool.false_eq_true, ↓reduceIte]; omega
  | true =>
    have := h rfl
    simp only [reservation, ↓reduceIte]
    omega

private theorem reservation_pos {nCols wanted : Nat} : 0 < reservation nCols true wanted := by
  simp only [reservation, ↓reduceIte]
  omega

/-- Where the diagonal leads, every row has a slot for it. -/
theorem pos_of_mem_reservations {nCols n : Nat} {diagonalFirst : Bool} {wanted : List Nat}
    (hn : n ∈ wanted.map (reservation nCols diagonalFirst)) (hd : diagonalFirst = true) :
    0 < n := by
  subst hd
  obtain ⟨w, -, rfl⟩ := List.mem_map.1 hn
  exact reservation_pos

/-- The slots of a new draft are its blank rows, one after another. -/
private theorem packs_reserve {nRows nCols : Nat} {diagonalFirst : Bool} {capacities : List Nat}
    (hlen : capacities.length = nRows) (hpos : ∀ n ∈ capacities, diagonalFirst = true → 0 < n) :
    (reserve nRows nCols diagonalFirst capacities).layout.Packs
      (capacities.mapIdx (blankRow diagonalFirst)) := by
  refine ⟨?_, ?_, rfl⟩
  · rw [List.length_mapIdx]
    exact hlen.symm
  · have hlengths : (capacities.mapIdx (blankRow diagonalFirst)).map List.length = capacities := by
      refine List.ext_getElem (by simp) fun i hi hi' => ?_
      rw [List.getElem_map, List.getElem_mapIdx, length_blankRow (hpos _ (List.getElem_mem hi'))]
    rw [hlengths]
    rfl

/-- A row has the slots that are reserved for it. -/
theorem capacity_reserve {nRows nCols : Nat} {diagonalFirst : Bool} {capacities : List Nat}
    (hlen : capacities.length = nRows) (hpos : ∀ n ∈ capacities, diagonalFirst = true → 0 < n)
    {row : Nat} (hrow : row < capacities.length) :
    (reserve nRows nCols diagonalFirst capacities).capacity row = capacities[row] := by
  rw [capacity_of_packs (packs_reserve hlen hpos) (by rwa [List.length_mapIdx]),
    List.getElem_mapIdx]
  exact length_blankRow (hpos _ (List.getElem_mem hrow))

/-- What a new draft records are its leading diagonal entries. -/
theorem recorded_reserve {nRows nCols : Nat} {diagonalFirst : Bool} {capacities : List Nat}
    (hcols : nCols < columnLimit) (hlen : capacities.length = nRows)
    (hpos : ∀ n ∈ capacities, diagonalFirst = true → 0 < n) {row : Nat} (hrow : row < nRows)
    (hlead : diagonalFirst = true → row < nCols) :
    (reserve nRows nCols diagonalFirst capacities).recorded row =
      if diagonalFirst then [row.toUInt32] else [] := by
  have hrow' : row < (capacities.mapIdx (blankRow diagonalFirst)).length := by
    rwa [List.length_mapIdx, hlen]
  rw [recorded, window_of_packs (packs_reserve hlen hpos) hrow', List.getElem_mapIdx, blankRow]
  cases diagonalFirst with
  | false => exact occupied_append _ fun c hc => absurd hc List.not_mem_nil
  | true =>
    have hnat : row.toUInt32.toNat = row := toNat_toUInt32 (Nat.lt_trans (hlead rfl) hcols)
    show occupied ([row.toUInt32] ++ List.replicate _ free) = _
    refine occupied_append _ ?_
    intro c hc
    rw [List.mem_singleton.1 hc]
    exact ne_free_of_lt hcols (hnat.symm ▸ hlead rfl)

/-- A draft is well-formed from its start, whatever is reserved. -/
theorem wellFormed_reserve {nRows nCols : Nat} {diagonalFirst : Bool} {wanted : List Nat}
    (hcols : nCols < columnLimit) (hsquare : diagonalFirst = true → nRows = nCols)
    (hlen : wanted.length = nRows) :
    (reserve nRows nCols diagonalFirst
      (wanted.map (reservation nCols diagonalFirst))).WellFormed := by
  have hlen' : (wanted.map (reservation nCols diagonalFirst)).length = nRows := by
    rw [List.length_map, hlen]
  refine .of_packs hcols hsquare (packs_reserve hlen' fun n => pos_of_mem_reservations)
    fun row hrow => ?_
  rw [List.length_mapIdx, List.length_map, hlen] at hrow
  rw [List.getElem_mapIdx, List.getElem_map]
  have hlead : diagonalFirst = true → row < nCols := fun hd => hsquare hd ▸ hrow
  refine window_blankRow hcols (reservation_le fun hd => Nat.zero_lt_of_lt (hlead hd)) fun hd =>
    ⟨?_, hlead hd⟩
  subst hd
  exact reservation_pos

/-- A draft that is made from row lengths is well-formed. -/
theorem wellFormed_ofReservations {nRows nCols : Nat} {wanted : List Nat} {policy : Policy}
    {d : Draft} (h : ofReservations nRows nCols wanted policy = .ok d) : d.WellFormed := by
  simp only [ofReservations, require_bind_eq_ok] at h
  obtain ⟨hlen, hcols, -, h⟩ := h
  obtain rfl := Except.ok.inj h
  exact wellFormed_reserve hcols Policy.eq_of_leads hlen

/-- One length for all rows is a list of equal lengths. -/
theorem uniform_eq_ofReservations (nRows nCols n : Nat) (policy : Policy) :
    uniform nRows nCols n policy = ofReservations nRows nCols (List.replicate nRows n) policy := by
  have hsum : ∀ m, (List.replicate nRows m).foldl (· + ·) 0 = nRows * m := by
    intro m
    rw [← List.sum_eq_foldl, List.sum_replicate_nat]
  have hlen : (List.replicate nRows n).length = nRows := List.length_replicate
  simp only [uniform, ofReservations, List.map_replicate, hsum, hlen, require, ↓reduceIte,
    Rows.ok_bind]

/-- A draft that is made from one length for all rows is well-formed. -/
theorem wellFormed_uniform {nRows nCols wanted : Nat} {policy : Policy} {d : Draft}
    (h : uniform nRows nCols wanted policy = .ok d) : d.WellFormed := by
  rw [uniform_eq_ofReservations] at h
  exact wellFormed_ofReservations h

/-! ### Rows -/

/-- A row without a free slot. -/
private theorem Window.of_columns {nCols row : Nat} {diagonalFirst : Bool} {columns : List UInt32}
    (hcols : nCols < columnLimit) (hnodup : columns.Nodup) (hlt : ∀ c ∈ columns, c.toNat < nCols)
    (hlead : diagonalFirst = true → columns.head? = some row.toUInt32) :
    Window nCols diagonalFirst row columns := by
  have h : Window nCols diagonalFirst row (columns ++ List.replicate 0 free) :=
    .of_append columns 0 hcols (length_le_of_nodup hnodup hlt) hnodup hlt hlead
  rwa [List.replicate_zero, List.append_nil] at h

private theorem mem_sorted_toUInt32 {nCols : Nat} {cols : List Nat} {c : UInt32}
    (hcols : nCols < columnLimit) (hlt : ∀ col ∈ cols, col < nCols) :
    c ∈ Distinct.sorted (cols.map Nat.toUInt32) ↔ c.toNat ∈ cols := by
  rw [Distinct.mem_sorted, List.mem_map]
  constructor
  · rintro ⟨col, hcol, rfl⟩
    rwa [toNat_toUInt32 (Nat.lt_trans (hlt col hcol) hcols)]
  · intro hc
    exact ⟨c.toNat, hc, UInt32.ofNat_toNat⟩

/-- The columns that a row asks for, with its diagonal where that leads. -/
def columnSet (diagonalFirst : Bool) (row : Nat) (cols : List Nat) : Finset Nat :=
  (if diagonalFirst then {row} else ∅) ∪ cols.toFinset

theorem mem_columnSet {diagonalFirst : Bool} {row col : Nat} {cols : List Nat} :
    col ∈ columnSet diagonalFirst row cols ↔ (diagonalFirst = true ∧ col = row) ∨ col ∈ cols := by
  cases diagonalFirst <;> simp [columnSet]

section Row

variable {nCols row : Nat} {diagonalFirst : Bool} {cols : List Nat} {packed : List UInt32}

/-- A row is packed if its columns are in range: each once and ascending, behind a leading
diagonal. -/
theorem packRow_eq_ok_iff : packRow nCols diagonalFirst row cols = .ok packed ↔
    (∀ col ∈ cols, col < nCols) ∧
      packed = if diagonalFirst then
          row.toUInt32 :: Distinct.sorted ((cols.filter (· ≠ row)).map Nat.toUInt32)
        else Distinct.sorted (cols.map Nat.toUInt32) := by
  rw [packRow]
  split
  case h_1 col hfind =>
    have hmem := List.mem_of_find?_eq_some hfind
    have hbeyond := List.find?_some hfind
    simp only [decide_eq_true_eq] at hbeyond
    constructor
    · intro h
      cases h
    · rintro ⟨hlt, -⟩
      exact absurd (hlt col hmem) (Nat.not_lt_of_le hbeyond)
  case h_2 hfind =>
    have hlt : ∀ col ∈ cols, col < nCols := by simpa using hfind
    rw [and_iff_right hlt]
    cases diagonalFirst <;> simp [eq_comm]

/-- A packed row has the columns of the row. -/
theorem mem_packRow (hcols : nCols < columnLimit) (hrow : diagonalFirst = true → row < nCols)
    (h : packRow nCols diagonalFirst row cols = .ok packed) {c : UInt32} :
    c ∈ packed ↔ c.toNat ∈ columnSet diagonalFirst row cols := by
  obtain ⟨hlt, rfl⟩ := packRow_eq_ok_iff.1 h
  rw [mem_columnSet]
  cases diagonalFirst with
  | false => simp [mem_sorted_toUInt32 hcols hlt]
  | true =>
    have hnat : row.toUInt32.toNat = row := toNat_toUInt32 (Nat.lt_trans (hrow rfl) hcols)
    have hlt' : ∀ col ∈ cols.filter (· ≠ row), col < nCols :=
      fun col hcol => hlt col (List.mem_of_mem_filter hcol)
    have hlead : c = row.toUInt32 ↔ c.toNat = row := by
      rw [← UInt32.toNat_inj, hnat]
    rw [if_pos rfl, List.mem_cons, hlead, mem_sorted_toUInt32 hcols hlt', List.mem_filter]
    by_cases hc : c.toNat = row <;> simp [hc]

/-- A packed row is in the order of a pattern's rows. -/
theorem rowOrdered_packRow (hcols : nCols < columnLimit) (hrow : diagonalFirst = true → row < nCols)
    (h : packRow nCols diagonalFirst row cols = .ok packed) :
    Layout.RowOrdered diagonalFirst row packed := by
  obtain ⟨hlt, rfl⟩ := packRow_eq_ok_iff.1 h
  unfold Layout.RowOrdered
  cases diagonalFirst with
  | false => exact Distinct.pairwise_sorted _
  | true =>
    have hnat : row.toUInt32.toNat = row := toNat_toUInt32 (Nat.lt_trans (hrow rfl) hcols)
    have hlt' : ∀ col ∈ cols.filter (· ≠ row), col < nCols :=
      fun col hcol => hlt col (List.mem_of_mem_filter hcol)
    refine ⟨row.toUInt32, _, rfl, hnat, Distinct.pairwise_sorted _, ?_⟩
    -- the filter has taken the diagonal out
    rw [mem_sorted_toUInt32 hcols hlt', hnat]
    simp

/-- A leading diagonal is in range, so that all columns of a row are. -/
theorem columnSet_lt (hrow : diagonalFirst = true → row < nCols) (hlt : ∀ col ∈ cols, col < nCols)
    {col : Nat} (hcol : col ∈ columnSet diagonalFirst row cols) : col < nCols := by
  rcases mem_columnSet.1 hcol with ⟨hd, rfl⟩ | hcol
  · exact hrow hd
  · exact hlt col hcol

private theorem window_packRow (hcols : nCols < columnLimit)
    (hrow : diagonalFirst = true → row < nCols)
    (h : packRow nCols diagonalFirst row cols = .ok packed) :
    Window nCols diagonalFirst row packed := by
  have hordered := rowOrdered_packRow hcols hrow h
  refine .of_columns hcols hordered.nodup ?_ ?_
  · intro c hc
    exact columnSet_lt hrow (packRow_eq_ok_iff.1 h).1 ((mem_packRow hcols hrow h).1 hc)
  · rintro rfl
    obtain ⟨-, rfl⟩ := packRow_eq_ok_iff.1 h
    rfl

end Row

/-- Rows are packed one by one. -/
private theorem packRows_eq_ok {nCols row : Nat} {diagonalFirst : Bool} {rows : List (List Nat)}
    {packed : List (List UInt32)} (h : packRows nCols diagonalFirst row rows = .ok packed) :
    packed.length = rows.length ∧ ∀ i, (hi : i < packed.length) → (hi' : i < rows.length) →
      packRow nCols diagonalFirst (row + i) rows[i] = .ok packed[i] := by
  induction rows generalizing row packed with
  | nil =>
    obtain rfl := Except.ok.inj h
    exact ⟨rfl, fun i hi => absurd hi (Nat.not_lt_zero i)⟩
  | cons cols rows ih =>
    obtain ⟨first, hfirst, h⟩ := bind_eq_ok.1 h
    obtain ⟨rest, hrest, h⟩ := bind_eq_ok.1 h
    obtain rfl := Except.ok.inj h
    obtain ⟨hlen, hih⟩ := ih hrest
    refine ⟨congrArg Nat.succ hlen, fun i hi hi' => ?_⟩
    cases i with
    | zero => exact hfirst
    | succ i =>
      have := hih i (Nat.lt_of_succ_lt_succ hi) (Nat.lt_of_succ_lt_succ hi')
      rwa [Nat.add_assoc, Nat.add_comm 1 i] at this

/-- A draft from rows has their shape and packs them. -/
theorem exists_packs_of_ofRows {nRows nCols : Nat} {rows : List (List Nat)} {policy : Policy}
    {d : Draft} (h : ofRows nRows nCols rows policy = .ok d) :
    (nCols < columnLimit ∧ rows.length = nRows) ∧
      (d.nRows = nRows ∧ d.nCols = nCols ∧ d.diagonalFirst = policy.leads nRows nCols) ∧
      ∃ packed, d.layout.Packs packed ∧ ∀ row, (hrow : row < packed.length) →
        (hrow' : row < rows.length) →
        packRow nCols (policy.leads nRows nCols) row rows[row] = .ok packed[row] := by
  simp only [ofRows, require_bind_eq_ok] at h
  obtain ⟨hcols, h⟩ := h
  obtain ⟨packed, hpacked, h⟩ := bind_eq_ok.1 h
  obtain ⟨hcount, h⟩ := require_bind_eq_ok.1 h
  obtain rfl := Except.ok.inj h
  rw [← hcount, List.take_length] at hpacked
  obtain ⟨hlen, hrows⟩ := packRows_eq_ok hpacked
  refine ⟨⟨hcols, hcount⟩, ⟨rfl, rfl, rfl⟩, packed, ⟨?_, rfl, rfl⟩, ?_⟩
  · exact hcount.symm.trans hlen.symm
  · intro row hrow hrow'
    have hpack := hrows row hrow hrow'
    rwa [Nat.zero_add, hcount] at hpack

/-- A draft that is made from rows is well-formed. -/
theorem wellFormed_ofRows {nRows nCols : Nat} {rows : List (List Nat)} {policy : Policy} {d : Draft}
    (h : ofRows nRows nCols rows policy = .ok d) : d.WellFormed := by
  obtain ⟨⟨hcols, hcount⟩, ⟨hnRows, hnCols, hflag⟩, packed, hpacks, hrows⟩ :=
    exists_packs_of_ofRows h
  have hlen : packed.length = nRows := hpacks.nRows_eq.symm.trans hnRows
  refine .of_packs (hnCols ▸ hcols) ?_ hpacks fun row hrow => ?_
  · rw [hflag, hnRows, hnCols]
    exact Policy.eq_of_leads
  · rw [hflag, hnCols]
    exact window_packRow hcols (fun hd => Policy.lt_of_leads hd (hlen ▸ hrow))
      (hrows row hrow (by omega))

/-! ### Wider patterns -/

/-- Progress is finished with its draft if nothing stopped it. -/
theorem Progress.finished_eq_ok_iff {progress : Progress} {d : Draft} :
    progress.finished = .ok d ↔ progress.failure = none ∧ progress.draft = d := by
  cases hfailure : progress.failure with
  | none => simp [finished, hfailure]
  | some fault => simp [finished, hfailure]

/-- Progress that was stopped ends with the fault that stopped it. -/
theorem Progress.finished_eq_error_iff {progress : Progress} {fault : Fault} :
    progress.finished = .error fault ↔ progress.failure = some fault := by
  cases hfailure : progress.failure with
  | none => simp [finished, hfailure]
  | some fault => simp [finished, hfailure]

private theorem grows_widenRows {p : Pattern} {reach row count : Nat} {d e : Draft}
    (hd : d.WellFormed) (h : widenRows p reach d row count = .ok e) : d.Grows e := by
  induction count generalizing d row with
  | zero =>
    obtain rfl := Except.ok.inj h
    exact .refl
  | succ count ih =>
    obtain ⟨columns, -, h⟩ := bind_eq_ok.1 h
    obtain ⟨d', hfinished, h⟩ := bind_eq_ok.1 h
    -- a row that stops early ends the widening, so that this one is complete
    have hrow := grows_insertRow hd row (columns.toList.map UInt32.toNat ++ band p.nRows reach row)
    rw [(Progress.finished_eq_ok_iff.1 hfinished).2] at hrow
    exact hrow.trans (ih (hrow.wellFormed hd) h)

/-- A draft that widens a pattern is well-formed. -/
theorem wellFormed_widen {p : Pattern} {wanted reach : Nat} {d : Draft}
    (h : widen p wanted reach = .ok d) : d.WellFormed := by
  obtain ⟨-, h⟩ := require_bind_eq_ok.1 h
  obtain ⟨d₀, huniform, hrows⟩ := bind_eq_ok.1 h
  have hd₀ := wellFormed_uniform huniform
  exact (grows_widenRows hd₀ hrows).wellFormed hd₀

end Draft

end SparsePattern
