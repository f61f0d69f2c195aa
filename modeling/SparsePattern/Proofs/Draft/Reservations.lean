import SparsePattern.Proofs.Draft.Creation
import SparsePattern.Proofs.Draft.Sequences

/-!
# Drafts with reservations

Creating a draft with reservations fails for lack of memory only (`ofReservations_eq_ok`).  The new
draft has the slots that were asked for, as far as there are columns (`capacity_reserved`), and
holds its leading diagonal (`contains_reserved`).  Insertions into it are accepted as long as no row
is given more distinct columns than it asked slots for (`admits_reserved_iff`): a row holds no more
columns than there are, so that it never misses the slots beyond.
-/

namespace SparsePattern.Draft

open Rows (require_bind_eq_ok)

variable {nRows nCols row : Nat} {wanted : List Nat} {policy : Policy}

/-- The draft that reserves what is wanted for each row. -/
def reserved (nRows nCols : Nat) (wanted : List Nat) (policy : Policy) : Draft :=
  reserve nRows nCols (policy.leads nRows nCols)
    (wanted.map (reservation nCols (policy.leads nRows nCols)))

/-! ### Creation -/

/-- Reservations that fit the memory make the reserved draft. -/
theorem ofReservations_eq_ok (hcols : nCols < columnLimit) (hlen : wanted.length = nRows)
    (hfits : Fits nRows
      ((wanted.map (reservation nCols (policy.leads nRows nCols))).foldl (· + ·) 0)) :
    ofReservations nRows nCols wanted policy = .ok (reserved nRows nCols wanted policy) :=
  require_bind_eq_ok.2 ⟨hlen, require_bind_eq_ok.2 ⟨hcols, require_bind_eq_ok.2 ⟨hfits, rfl⟩⟩⟩

/-- Reservations are refused for their number, for too many columns and for lack of memory only. -/
private theorem ofReservations_eq_ok_iff {d : Draft} :
    ofReservations nRows nCols wanted policy = .ok d ↔
      (wanted.length = nRows ∧ nCols < columnLimit ∧
        Fits nRows ((wanted.map (reservation nCols (policy.leads nRows nCols))).foldl (· + ·) 0)) ∧
      reserved nRows nCols wanted policy = d := by
  constructor
  · intro h
    obtain ⟨hlen, h⟩ := require_bind_eq_ok.1 h
    obtain ⟨hcols, h⟩ := require_bind_eq_ok.1 h
    obtain ⟨hfits, h⟩ := require_bind_eq_ok.1 h
    exact ⟨⟨hlen, hcols, hfits⟩, Except.ok.inj h⟩
  · rintro ⟨⟨hlen, hcols, hfits⟩, rfl⟩
    exact ofReservations_eq_ok hcols hlen hfits

/-- One reservation for all rows makes the reserved draft if it fits the memory. -/
theorem uniform_eq_ok {n : Nat} (hcols : nCols < columnLimit)
    (hfits : Fits nRows (nRows * reservation nCols (policy.leads nRows nCols) n)) :
    uniform nRows nCols n policy = .ok (reserved nRows nCols (List.replicate nRows n) policy) := by
  refine require_bind_eq_ok.2 ⟨hcols, require_bind_eq_ok.2 ⟨hfits, ?_⟩⟩
  rw [reserved, List.map_replicate]
  rfl

/-- The reserved draft is well-formed. -/
theorem wellFormed_reserved (hcols : nCols < columnLimit) (hlen : wanted.length = nRows) :
    (reserved nRows nCols wanted policy).WellFormed :=
  wellFormed_reserve hcols Policy.eq_of_leads hlen

/-! ### What is reserved -/

private theorem lt_of_wanted (hlen : wanted.length = nRows) {w : Nat} (hw : wanted[row]? = some w) :
    row < nRows := by
  rw [← hlen]
  exact (List.getElem?_eq_some_iff.1 hw).1

/-- A row of the reserved draft has room for what is wanted, within the number of columns. -/
theorem capacity_reserved (hlen : wanted.length = nRows) {w : Nat} (hw : wanted[row]? = some w) :
    (reserved nRows nCols wanted policy).capacity row =
      reservation nCols (policy.leads nRows nCols) w := by
  obtain ⟨hrow, rfl⟩ := List.getElem?_eq_some_iff.1 hw
  have hlen' : (wanted.map (reservation nCols (policy.leads nRows nCols))).length = nRows := by
    rw [List.length_map, hlen]
  rw [reserved,
    capacity_reserve hlen' (fun n => pos_of_mem_reservations) (by rwa [List.length_map]),
    List.getElem_map]

/-- At first the draft contains the leading diagonal and nothing else. -/
theorem contains_reserved (hcols : nCols < columnLimit) (hlen : wanted.length = nRows) {col : Nat} :
    (reserved nRows nCols wanted policy).contains row col = true ↔
      row < nRows ∧ policy.leads nRows nCols = true ∧ col = row := by
  rw [contains_iff]
  refine and_congr_right fun (hrow : row < nRows) => ?_
  have hlen' : (wanted.map (reservation nCols (policy.leads nRows nCols))).length = nRows := by
    rw [List.length_map, hlen]
  have hlead : policy.leads nRows nCols = true → row < nCols := fun hd => Policy.lt_of_leads hd hrow
  rw [reserved, recorded_reserve hcols hlen' (fun n => pos_of_mem_reservations) hrow hlead]
  by_cases hleads : policy.leads nRows nCols = true
  · have hnat : row.toUInt32.toNat = row := toNat_toUInt32 (Nat.lt_trans (hlead hleads) hcols)
    simp only [hleads, ↓reduceIte, List.mem_singleton, exists_eq_left, hnat, true_and, eq_comm]
  · simp [hleads]

/-! ### Offsets -/

/-- The offsets are the sums of the reservations before them. -/
private theorem rowStart_reserved (hlen : wanted.length = nRows) (hrow : row ≤ nRows) :
    (reserved nRows nCols wanted policy).rowStart[row]? =
      some (((wanted.take row).map (reservation nCols (policy.leads nRows nCols))).foldl
        (· + ·) 0) := by
  have hlen' : row ≤ (wanted.map (reservation nCols (policy.leads nRows nCols))).length := by
    rwa [List.length_map, hlen]
  show
    ((wanted.map (reservation nCols (policy.leads nRows nCols))).scanl (· + ·) 0).toArray[row]? = _
  rw [List.getElem?_toArray, List.getElem?_scanl, if_pos hlen', ← List.map_take]

/-- The offsets of what fits the memory stay far below the numbers that wrap around. -/
private theorem foldl_reserved_lt {capacities : List Nat}
    (hfits : Fits nRows (capacities.foldl (· + ·) 0)) (row : Nat) :
    (capacities.take row).foldl (· + ·) 0 < sizeLimit := by
  have htotal : 4 * capacities.sum ≤ memoryLimit := by
    rw [List.sum_eq_foldl]
    exact hfits.2
  have hsplit : (capacities.take row).sum + (capacities.drop row).sum = capacities.sum := by
    rw [← List.sum_append, List.take_append_drop]
  have hlimit : memoryLimit < sizeLimit := by decide
  rw [← List.sum_eq_foldl]
  omega

/-! ### What the reservations admit -/

/-- The columns that the pairs name in `row`. -/
def columnsIn (pairs : List (Nat × Nat)) (row : Nat) : List Nat :=
  (pairs.filter (·.1 = row)).map (·.2)

private theorem mem_columnsIn {pairs : List (Nat × Nat)} {col : Nat} :
    col ∈ columnsIn pairs row ↔ (row, col) ∈ pairs := by
  simp [columnsIn]

private theorem columnsIn_lt {pairs : List (Nat × Nat)}
    (hpairs : ∀ r c, (r, c) ∈ pairs → r < nRows ∧ c < nCols) (row : Nat) :
    ∀ col ∈ columnsIn pairs row, col < nCols := by
  intro col hcol
  exact (hpairs row col (mem_columnsIn.1 hcol)).2

private theorem card_columnSet_le {diagonalFirst : Bool} {cols : List Nat}
    (hrow : diagonalFirst = true → row < nCols) (hlt : ∀ col ∈ cols, col < nCols) :
    (columnSet diagonalFirst row cols).card ≤ nCols := by
  have hsub : columnSet diagonalFirst row cols ⊆ Finset.range nCols := by
    intro col hcol
    exact Finset.mem_range.2 (columnSet_lt hrow hlt hcol)
  have hcard := Finset.card_le_card hsub
  rwa [Finset.card_range] at hcard

/-- Columns in range fit a reservation exactly if they fit what was asked for. -/
theorem card_columnSet_le_reservation_iff {diagonalFirst : Bool} {cols : List Nat} {w : Nat}
    (hrow : diagonalFirst = true → row < nCols) (hlt : ∀ col ∈ cols, col < nCols) :
    (columnSet diagonalFirst row cols).card ≤ reservation nCols diagonalFirst w ↔
      (columnSet diagonalFirst row cols).card ≤ max w (if diagonalFirst then 1 else 0) := by
  have hle := card_columnSet_le hrow hlt
  unfold reservation
  omega

section Admits

variable {pairs : List (Nat × Nat)} (hcols : nCols < columnLimit) (hlen : wanted.length = nRows)
  (hpairs : ∀ r c, (r, c) ∈ pairs → r < nRows ∧ c < nCols)
include hcols hlen hpairs

/-- A sequence is admitted exactly if no row is asked for more distinct columns than are reserved
for it. -/
theorem admits_reserved_iff :
    (reserved nRows nCols wanted policy).Admits pairs ↔ ∀ row w, wanted[row]? = some w →
      (columnSet (policy.leads nRows nCols) row (columnsIn pairs row)).card ≤
        max w (if policy.leads nRows nCols then 1 else 0) := by
  have hwf : (reserved nRows nCols wanted policy).WellFormed := wellFormed_reserved hcols hlen
  have hset : ∀ r < nRows, ∀ c, c ∈ columnSet (policy.leads nRows nCols) r (columnsIn pairs r) ↔
      (reserved nRows nCols wanted policy).contains r c = true ∨ (r, c) ∈ pairs := by
    intro r hr c
    rw [mem_columnSet, mem_columnsIn, contains_reserved hcols hlen, and_iff_right hr]
  rw [← failure_insertPairs_eq_none_iff,
    (insertPairs_outcome hwf hpairs).failure_eq_none_iff hwf (grows_insertPairs hwf pairs) hset]
  -- each row of the draft has its request, and the other way round
  have hrow : ∀ r w, wanted[r]? = some w →
      ((columnSet (policy.leads nRows nCols) r (columnsIn pairs r)).card ≤
          (reserved nRows nCols wanted policy).capacity r ↔
        (columnSet (policy.leads nRows nCols) r (columnsIn pairs r)).card ≤
          max w (if policy.leads nRows nCols then 1 else 0)) := by
    intro r w hw
    rw [capacity_reserved hlen hw]
    exact card_columnSet_le_reservation_iff
      (fun hleads => Policy.lt_of_leads hleads (lt_of_wanted hlen hw))
      (columnsIn_lt hpairs r)
  constructor
  · intro hroom r w hw
    exact (hrow r w hw).1 (hroom r (lt_of_wanted hlen hw))
  · intro hroom r (hr : r < nRows)
    have hw : wanted[r]? = some wanted[r] := List.getElem?_eq_getElem (by omega)
    exact (hrow r _ hw).2 (hroom r _ hw)

/-- A row that asked for a slot for each column never misses those that it did not get. -/
private theorem admits_reserved_of_le (hwide : ∀ w ∈ wanted, nCols ≤ w) :
    (reserved nRows nCols wanted policy).Admits pairs := by
  refine (admits_reserved_iff hcols hlen hpairs).2 fun row w hw => ?_
  have hleads : policy.leads nRows nCols = true → row < nCols :=
    fun hd => Policy.lt_of_leads hd (lt_of_wanted hlen hw)
  have hle := card_columnSet_le hleads (columnsIn_lt hpairs row)
  have hw' : nCols ≤ w := hwide w (List.mem_of_getElem? hw)
  omega

/-- Neither the order of insertions nor repetitions decide whether they are accepted. -/
private theorem admits_reserved_congr {pairs' : List (Nat × Nat)}
    (hsame : ∀ pair, pair ∈ pairs' ↔ pair ∈ pairs) :
    (reserved nRows nCols wanted policy).Admits pairs' ↔
      (reserved nRows nCols wanted policy).Admits pairs := by
  have hpairs' : ∀ r c, (r, c) ∈ pairs' → r < nRows ∧ c < nCols := by
    intro r c hmem
    exact hpairs r c ((hsame _).1 hmem)
  have hset : ∀ row, columnSet (policy.leads nRows nCols) row (columnsIn pairs' row) =
      columnSet (policy.leads nRows nCols) row (columnsIn pairs row) := by
    intro row
    ext c
    rw [mem_columnSet, mem_columnSet, mem_columnsIn, mem_columnsIn, hsame]
  rw [admits_reserved_iff hcols hlen hpairs, admits_reserved_iff hcols hlen hpairs']
  simp only [hset]

end Admits

/-- A draft is created with reservations exactly if there is one for each row, columns fit their
numbers and all fits the memory; equal reservations are a case of this.  Each row then has the slots
that were asked for it, as far as there are columns and with one for a leading diagonal, one row
behind the other.  Insertions in range are all accepted exactly if no row is asked for more distinct
columns than its reservation asked for, however few slots that came to; neither their order nor
repetitions matter. -/
theorem reservations_admit (nRows nCols : Nat) (wanted : List Nat) (policy : Policy) :
    ((∃ d, ofReservations nRows nCols wanted policy = .ok d) ↔
      wanted.length = nRows ∧ nCols < columnLimit ∧
        Fits nRows ((wanted.map (reservation nCols (policy.leads nRows nCols))).foldl (· + ·) 0)) ∧
    (∀ n, uniform nRows nCols n policy =
      ofReservations nRows nCols (List.replicate nRows n) policy) ∧
    ∀ d, ofReservations nRows nCols wanted policy = .ok d →
      (∀ row w, wanted[row]? = some w →
        d.rowCapacity row = .ok (max (min w nCols) (if policy.leads nRows nCols then 1 else 0))) ∧
      (∀ row ≤ nRows, ∃ start < sizeLimit, d.rowStart[row]? = some start ∧
        start = ((wanted.take row).map fun w =>
          max (min w nCols) (if policy.leads nRows nCols then 1 else 0)).foldl (· + ·) 0) ∧
      ∀ pairs, (∀ r c, (r, c) ∈ pairs → r < nRows ∧ c < nCols) →
        (d.Admits pairs ↔ ∀ row w, wanted[row]? = some w →
          (columnSet (policy.leads nRows nCols) row (columnsIn pairs row)).card ≤
            max w (if policy.leads nRows nCols then 1 else 0)) ∧
        ((∀ w ∈ wanted, nCols ≤ w) → d.Admits pairs) ∧
        ∀ pairs', (∀ pair, pair ∈ pairs' ↔ pair ∈ pairs) → (d.Admits pairs' ↔ d.Admits pairs) := by
  refine ⟨?_, fun n => uniform_eq_ofReservations .., fun d hd => ?_⟩
  · simp only [ofReservations_eq_ok_iff, exists_and_left, exists_eq', and_true]
  obtain ⟨⟨hlen, hcols, hfits⟩, rfl⟩ := ofReservations_eq_ok_iff.1 hd
  refine ⟨fun row w hw => ?_, fun row hrow => ?_, fun pairs hpairs => ⟨?_, ?_, fun pairs' => ?_⟩⟩
  · rw [rowCapacity, capacity_reserved hlen hw]
    exact if_pos (lt_of_wanted hlen hw)
  · refine ⟨_, ?_, rowStart_reserved hlen hrow, rfl⟩
    rw [List.map_take]
    exact foldl_reserved_lt hfits row
  · exact admits_reserved_iff hcols hlen hpairs
  · exact admits_reserved_of_le hcols hlen hpairs
  · exact admits_reserved_congr hcols hlen hpairs

/-- The second row asks for more slots than there are columns. -/
theorem reservations_admit_generous :
    ∃ d, ofReservations 3 3 [1, 7, 2] = .ok d ∧ d.rowCapacity 1 = .ok 3 ∧
      d.Admits [(1, 0), (2, 0), (1, 2), (1, 0)] ∧ d.Admits [(1, 2), (1, 0), (2, 0)] ∧
      ¬ d.Admits [(1, 0), (0, 1)] := by
  obtain ⟨hcreated, -, hadmit⟩ := reservations_admit 3 3 [1, 7, 2] {}
  obtain ⟨d, hd⟩ := hcreated.2 (by decide)
  obtain ⟨hcapacity, -, hpairs⟩ := hadmit d hd
  obtain ⟨hiff, -, hsame⟩ := hpairs [(1, 0), (2, 0), (1, 2), (1, 0)] (by simp; omega)
  obtain ⟨hiff', -⟩ := hpairs [(1, 0), (0, 1)] (by simp; omega)
  have hadmits : d.Admits [(1, 0), (2, 0), (1, 2), (1, 0)] := by
    refine hiff.2 fun row w hw => ?_
    rcases row with _ | _ | _ | row <;> cases hw <;> decide
  refine ⟨d, hd, hcapacity 1 7 rfl, hadmits, ?_, ?_⟩
  · have hsub : [(1, 2), (1, 0), (2, 0)] ⊆ [(1, 0), (2, 0), (1, 2), (1, 0)] := by decide
    have hsup : [(1, 0), (2, 0), (1, 2), (1, 0)] ⊆ [(1, 2), (1, 0), (2, 0)] := by decide
    exact (hsame _ fun pair => ⟨@hsub pair, @hsup pair⟩).2 hadmits
  · intro hadmits'
    exact absurd (hiff'.1 hadmits' 0 1 rfl) (by decide)

end SparsePattern.Draft
