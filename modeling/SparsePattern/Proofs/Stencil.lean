import Mathlib.Algebra.BigOperators.Ring.Finset
import SparsePattern.Proofs.Draft.Rows
import SparsePattern.Proofs.Draft.Widening
import SparsePattern.Stencil

/-!
# Five-point stencils

The number of a cell tells its line and its place in the line (`exists_cell`), and its neighbours
are the cells one step away (`mem_neighbours`): the last cell of a line is no neighbour of the first
cell of the next.  A cell has as many neighbours as there are steps that stay on the grid
(`card_columns`), never more than four, so that no row of the draft is ever full
(`insertPairs_base`), and compression keeps what the draft records (`fivePoint_eq`).
-/

namespace SparsePattern.Stencil

open Draft (columnSet mem_columnSet reserved rowPairs)

variable {width line place line' place' cell other : Nat}

/-- Two cells of a grid with `width` lines of `width` cells are the same or one step apart. -/
def Coupled (width cell other : Nat) : Prop :=
  ∃ line place line' place', (line < width ∧ place < width) ∧ (line' < width ∧ place' < width) ∧
    cell = line * width + place ∧ other = line' * width + place' ∧
    (cell = other ∨ distance line line' + distance place place' = 1)

/-! ### Cells -/

private theorem cell_lt (hline : line < width) (hplace : place < width) :
    line * width + place < width * width :=
  calc
    line * width + place < line * width + width := Nat.add_lt_add_left hplace _
    _ = (line + 1) * width := (Nat.succ_mul line width).symm
    _ ≤ width * width := Nat.mul_le_mul_right width hline

/-- Every cell has a line and a place. -/
theorem exists_cell (h : cell < width * width) :
    ∃ line < width, ∃ place < width, cell = line * width + place := by
  have hwidth : 0 < width := Nat.pos_of_mul_pos_left (Nat.zero_lt_of_lt h)
  have hcell : cell = cell / width * width + cell % width := (Nat.div_add_mod' cell width).symm
  exact ⟨cell / width, Nat.div_lt_of_lt_mul h, cell % width, Nat.mod_lt cell hwidth, hcell⟩

private theorem distance_add_distance_eq_one : distance line line' + distance place place' = 1 ↔
    (line = line' + 1 ∧ place = place') ∨ (line' = line + 1 ∧ place = place') ∨
      (line = line' ∧ place = place' + 1) ∨ (line = line' ∧ place' = place + 1) := by
  unfold distance
  omega

/-! ### Neighbours -/

/-- The neighbours of a cell by line and place. -/
private theorem neighbours_cell (hplace : place < width) :
    neighbours width (line * width + place) =
      (if 0 < line then [(line - 1) * width + place] else []) ++
      (if line + 1 < width then [(line + 1) * width + place] else []) ++
      (if 0 < place then [line * width + (place - 1)] else []) ++
      (if place + 1 < width then [line * width + (place + 1)] else []) := by
  have hwidth : 0 < width := Nat.zero_lt_of_lt hplace
  have hdiv : (line * width + place) / width = line := by
    rw [Nat.mul_comm, Nat.mul_add_div hwidth, Nat.div_eq_of_lt hplace, Nat.add_zero]
  have hmod : (line * width + place) % width = place := Nat.mul_add_mod_of_lt hplace
  have habove : (if 0 < line then [line * width + place - width] else []) =
      if 0 < line then [(line - 1) * width + place] else [] := by
    refine ite_congr rfl (fun hline => congrArg ([·]) ?_) fun _ => rfl
    have hle : width ≤ line * width := Nat.le_mul_of_pos_left width hline
    rw [Nat.sub_one_mul]
    omega
  have hbelow : line * width + place + width = (line + 1) * width + place := by
    rw [Nat.succ_mul]
    omega
  have hleft : (if 0 < place then [line * width + place - 1] else []) =
      if 0 < place then [line * width + (place - 1)] else [] := by
    refine ite_congr rfl (fun hplace => congrArg ([·]) ?_) fun _ => rfl
    exact Nat.add_sub_assoc hplace _
  simp only [neighbours, hdiv, hmod, habove, hbelow, hleft, Nat.add_assoc]

/-- The neighbours of a cell are the cells one step away. -/
theorem mem_neighbours (hline : line < width) (hplace : place < width) :
    other ∈ neighbours width (line * width + place) ↔
      ∃ line' < width, ∃ place' < width, other = line' * width + place' ∧
        distance line line' + distance place place' = 1 := by
  simp only [neighbours_cell hplace, List.mem_append, List.mem_ite_nil_right, List.mem_singleton,
    distance_add_distance_eq_one]
  constructor
  · rintro (((⟨h, rfl⟩ | ⟨h, rfl⟩) | ⟨h, rfl⟩) | ⟨h, rfl⟩)
    · exact ⟨line - 1, by omega, place, hplace, rfl, by omega⟩
    · exact ⟨line + 1, h, place, hplace, rfl, by omega⟩
    · exact ⟨line, hline, place - 1, by omega, rfl, by omega⟩
    · exact ⟨line, hline, place + 1, h, rfl, by omega⟩
  · rintro ⟨line', hline', place', hplace', rfl, ⟨rfl, rfl⟩ | ⟨rfl, rfl⟩ | ⟨rfl, rfl⟩ | ⟨rfl, rfl⟩⟩
    · exact .inl (.inl (.inl ⟨Nat.succ_pos _, rfl⟩))
    · exact .inl (.inl (.inr ⟨hline', rfl⟩))
    · exact .inl (.inr ⟨Nat.succ_pos _, rfl⟩)
    · exact .inr ⟨hplace', rfl⟩

/-- The columns of a cell's row in the stencil. -/
def columns (width cell : Nat) : Finset Nat := columnSet true cell (neighbours width cell)

private theorem coupled_iff :
    Coupled width cell other ↔ cell < width * width ∧ other ∈ columns width cell := by
  simp only [columns, mem_columnSet, true_and]
  constructor
  · rintro ⟨line, place, line', place', ⟨hline, hplace⟩, ⟨hline', hplace'⟩, rfl, rfl, hsame | hstep⟩
    · exact ⟨cell_lt hline hplace, .inl hsame.symm⟩
    · exact ⟨cell_lt hline hplace,
        .inr ((mem_neighbours hline hplace).2 ⟨_, hline', _, hplace', rfl, hstep⟩)⟩
  · rintro ⟨hcell, hother⟩
    obtain ⟨line, hline, place, hplace, rfl⟩ := exists_cell hcell
    rcases hother with rfl | hother
    · exact ⟨line, place, line, place, ⟨hline, hplace⟩, ⟨hline, hplace⟩, rfl, rfl, .inl rfl⟩
    · obtain ⟨line', hline', place', hplace', rfl, hstep⟩ := (mem_neighbours hline hplace).1 hother
      exact ⟨line, place, line', place', ⟨hline, hplace⟩, ⟨hline', hplace'⟩, rfl, rfl, .inr hstep⟩

private theorem Coupled.lt (h : Coupled width cell other) : cell < width * width :=
  (coupled_iff.1 h).1

/-- Neighbours are so mutually. -/
theorem Coupled.symm (h : Coupled width cell other) : Coupled width other cell := by
  obtain ⟨line, place, line', place', hcell, hother, rfl, rfl, hsteps⟩ := h
  refine ⟨line', place', line, place, hother, hcell, rfl, rfl, hsteps.imp Eq.symm fun hstep => ?_⟩
  rwa [distance, Nat.max_comm, distance, Nat.max_comm (place' - place)]

/-- How far the stencil reaches from the diagonal: one line, if there is more than one. -/
def reach (width : Nat) : Nat := if 2 ≤ width then width else 0

private theorem Coupled.distance_le (h : Coupled width cell other) :
    distance cell other ≤ reach width := by
  obtain ⟨line, place, line', place', ⟨hline, hplace⟩, ⟨hline', hplace'⟩, rfl, rfl,
      hsame | hstep⟩ := h
  · simp [distance, hsame]
  · have hwide : 2 ≤ width := by
      unfold distance at hstep
      omega
    rw [reach, if_pos hwide]
    rcases distance_add_distance_eq_one.1 hstep with
      ⟨rfl, rfl⟩ | ⟨rfl, rfl⟩ | ⟨rfl, rfl⟩ | ⟨rfl, rfl⟩
    all_goals
      simp only [distance, Nat.succ_mul]
      omega

/-- The first cell and the one below it are the farthest apart. -/
private theorem reach_attained (h : reach width ≠ 0) :
    Coupled width 0 width ∧ distance 0 width = reach width := by
  have hwide : 2 ≤ width := by
    by_contra hnarrow
    exact h (if_neg hnarrow)
  refine ⟨⟨0, 0, 1, 0, by omega, by omega, by omega, by omega, .inr rfl⟩, ?_⟩
  rw [reach, if_pos hwide, distance]
  omega

/-! ### Counting -/

/-- How many of the two steps along one direction stay on the grid. -/
def steps (width x : Nat) : Nat := (if 0 < x then 1 else 0) + (if x + 1 < width then 1 else 0)

private theorem steps_le (width x : Nat) : steps width x ≤ 2 := by
  unfold steps
  split <;> split <;> omega

private theorem length_neighbours (hplace : place < width) :
    (neighbours width (line * width + place)).length = steps width line + steps width place := by
  simp only [neighbours_cell hplace, List.length_append, apply_ite List.length,
    List.length_singleton, List.length_nil, steps, Nat.add_assoc]

private theorem nodup_cons_neighbours (hplace : place < width) :
    ((line * width + place) :: neighbours width (line * width + place)).Nodup := by
  have habove (hline : 0 < line) : (line - 1) * width + width = line * width := by
    rw [← Nat.succ_mul, Nat.succ_eq_add_one, Nat.sub_add_cancel hline]
  have hbelow : (line + 1) * width = line * width + width := Nat.succ_mul line width
  rw [neighbours_cell hplace]
  -- a cell with another in its line is farther from those of other lines than from that one
  split <;> split <;> split <;> split <;> simp <;> omega

/-- A cell is coupled with itself and with a neighbour for each step that stays on the grid. -/
theorem card_columns (hplace : place < width) :
    (columns width (line * width + place)).card = 1 + (steps width line + steps width place) := by
  have hset : columns width (line * width + place) =
      ((line * width + place) :: neighbours width (line * width + place)).toFinset := by
    rw [List.toFinset_cons]
    rfl
  rw [hset, List.toFinset_card_of_nodup (nodup_cons_neighbours hplace), List.length_cons,
    length_neighbours hplace, Nat.add_comm]

private theorem card_columns_le (hcell : cell < width * width) : (columns width cell).card ≤ 5 := by
  obtain ⟨line, -, place, hplace, rfl⟩ := exists_cell hcell
  have hline := steps_le width line
  have hplace' := steps_le width place
  rw [card_columns hplace]
  omega

/-- Along each direction one step is missing at either end. -/
private theorem sum_steps (width : Nat) :
    ∑ x ∈ Finset.range width, steps width x = 2 * (width - 1) := by
  cases width with
  | zero => rfl
  | succ last =>
    have hback : ∑ x ∈ Finset.range (last + 1), (if 0 < x then 1 else 0) = last := by
      simp only [Finset.sum_range_succ', Nat.succ_pos, if_true, Nat.lt_irrefl, if_false]
      simp
    have hforth : ∑ x ∈ Finset.range (last + 1), (if x + 1 < last + 1 then 1 else 0) = last := by
      have hone : ∀ x ∈ Finset.range last, (if x + 1 < last + 1 then 1 else 0) = 1 := by
        intro x hx
        exact if_pos (Nat.succ_lt_succ (Finset.mem_range.1 hx))
      rw [Finset.sum_range_succ, Finset.sum_congr rfl hone]
      simp
    simp only [steps, Finset.sum_add_distrib, hback, hforth]
    omega

/-- A sum over the cells is one over lines and places. -/
private theorem sum_range_mul (lines width : Nat) (f : Nat → Nat) :
    ∑ cell ∈ Finset.range (lines * width), f cell =
      ∑ line ∈ Finset.range lines, ∑ place ∈ Finset.range width, f (line * width + place) := by
  induction lines with
  | zero => simp
  | succ lines ih => rw [Nat.succ_mul, Finset.sum_range_add, ih, Finset.sum_range_succ]

private theorem sum_card_columns (width : Nat) :
    ∑ cell ∈ Finset.range (width * width), (columns width cell).card =
      5 * width ^ 2 - 4 * width := by
  have hline : ∀ line, ∑ place ∈ Finset.range width, (columns width (line * width + place)).card =
      width + width * steps width line + 2 * (width - 1) := by
    intro line
    rw [Finset.sum_congr rfl fun place hplace => card_columns (Finset.mem_range.1 hplace)]
    simp only [Finset.sum_add_distrib, Finset.sum_const, Finset.card_range, Nat.nsmul_eq_mul,
      sum_steps]
    omega
  have hall : width * (width - 1) + width = width * width := by
    cases width <;> rfl
  rw [sum_range_mul, Finset.sum_congr rfl fun line _ => hline line]
  simp only [Finset.sum_add_distrib, Finset.sum_const, Finset.card_range, Nat.nsmul_eq_mul,
    ← Finset.mul_sum, sum_steps]
  rw [Nat.mul_left_comm, Nat.pow_two]
  omega

/-! ### The draft -/

private theorem couple_eq {d : Draft} {count : Nat} :
    couple width d cell count =
      (d.insertPairs (rowPairs (neighbours width) cell count)).finished := by
  induction count generalizing d cell with
  | zero => rfl
  | succ count ih =>
    rw [couple, Draft.finished_insertPairs_rowPairs]
    simp only [ih]

/-- The draft that the stencil starts from. -/
def base (width : Nat) : Draft :=
  reserved (width * width) (width * width) (List.replicate (width * width) 5) {}

/-- The draft with all couplings. -/
def filled (width : Nat) : Draft :=
  ((base width).insertPairs (rowPairs (neighbours width) 0 (width * width))).draft

private theorem leads_square (n : Nat) : Policy.leads {} n n = true := Policy.leads_self {} n

private theorem reservation_le_five (n : Nat) : Draft.reservation n true 5 ≤ 5 := by
  rw [Draft.reservation, if_pos rfl]
  omega

/-- As far as columns fit their numbers, five slots for each row fit the memory. -/
private theorem uniform_eq (h : width * width < columnLimit) :
    Draft.uniform (width * width) (width * width) 5 = .ok (base width) := by
  refine Draft.uniform_eq_ok h ?_
  have hslots := Nat.mul_le_mul_left (width * width) (reservation_le_five (width * width))
  rw [leads_square]
  unfold columnLimit at h
  unfold Draft.Fits Draft.memoryLimit
  omega

private theorem wellFormed_base (h : width * width < columnLimit) : (base width).WellFormed :=
  Draft.wellFormed_reserved h List.length_replicate

private theorem grows_filled (h : width * width < columnLimit) :
    (base width).Grows (filled width) :=
  Draft.grows_insertPairs (wellFormed_base h) _

private theorem wellFormed_filled (h : width * width < columnLimit) : (filled width).WellFormed :=
  (grows_filled h).wellFormed (wellFormed_base h)

/-- What the rows of the stencil ask for. -/
def rows (width : Nat) : List (List Nat) := (List.range (width * width)).map (neighbours width)

private theorem getElem?_rows {cols : List Nat} :
    (rows width)[cell]? = some cols ↔ cell < width * width ∧ neighbours width cell = cols := by
  simp [rows, List.getElem?_eq_some_iff]

private theorem mem_rowPairs_neighbours :
    (cell, other) ∈ rowPairs (neighbours width) 0 (width * width) ↔
      ∃ cols, (rows width)[cell]? = some cols ∧ other ∈ cols := by
  simp only [Draft.mem_rowPairs, getElem?_rows, Nat.zero_le, Nat.zero_add, true_and, and_assoc,
    exists_and_left, exists_eq_left']

/-- No row is full when its turn comes, and in the end the draft records the coupled cells and no
others. -/
theorem insertPairs_base (h : width * width < columnLimit) :
    ((base width).insertPairs (rowPairs (neighbours width) 0 (width * width))).failure = none ∧
      ∀ cell other, (filled width).contains cell other = true ↔ Coupled width cell other := by
  have hlt : ∀ cols ∈ rows width, ∀ other ∈ cols, other < width * width := by
    intro cols hcols other hother
    obtain ⟨cell, hcols⟩ := List.mem_iff_getElem?.1 hcols
    obtain ⟨hcell, rfl⟩ := getElem?_rows.1 hcols
    have hcoupled : Coupled width cell other := coupled_iff.2 ⟨hcell, mem_columnSet.2 (.inr hother)⟩
    exact hcoupled.symm.lt
  have hroom : ∀ cell cols w, (rows width)[cell]? = some cols →
      (List.replicate (width * width) 5)[cell]? = some w →
      (columnSet (Policy.leads {} (width * width) (width * width)) cell cols).card ≤ w := by
    intro cell cols w hcols hw
    obtain ⟨hcell, rfl⟩ := getElem?_rows.1 hcols
    rw [List.getElem?_replicate_of_lt hcell, Option.some.injEq] at hw
    rw [leads_square, ← hw]
    exact card_columns_le hcell
  obtain ⟨hnone, hcontains⟩ :=
    Draft.insertPairs_reserved h (by simp [rows]) hlt List.length_replicate hroom
    fun cell other => mem_rowPairs_neighbours
  refine ⟨hnone, fun cell other => ?_⟩
  by_cases hcell : cell < width * width
  · have hrecorded := hcontains cell _ (getElem?_rows.2 ⟨hcell, rfl⟩) other
    rw [leads_square] at hrecorded
    rwa [coupled_iff, and_iff_right hcell]
  · refine iff_of_false (fun hin => hcell ?_) fun hcoupled => hcell hcoupled.lt
    have hrow : cell < (filled width).nRows := (Draft.contains_iff.1 hin).1
    rwa [(grows_filled h).sameShape.nRows_eq] at hrow

private theorem entrySet_filled (h : width * width < columnLimit) (hcell : cell < width * width) :
    (filled width).entrySet cell = columns width cell := by
  ext other
  have hrow : cell < (filled width).nRows := by rwa [(grows_filled h).sameShape.nRows_eq]
  rw [Draft.mem_entrySet hrow, (insertPairs_base h).2, coupled_iff, and_iff_right hcell]

private theorem entryCount_filled (h : width * width < columnLimit) :
    (filled width).entryCount = 5 * width ^ 2 - 4 * width := by
  have hrows : (filled width).nRows = width * width := (grows_filled h).sameShape.nRows_eq
  rw [Draft.entryCount_eq_sum (wellFormed_filled h), hrows, ← sum_card_columns]
  exact Finset.sum_congr rfl fun cell hcell =>
    congrArg Finset.card (entrySet_filled h (Finset.mem_range.1 hcell))

private theorem longestReservation_filled_le (h : width * width < columnLimit) :
    (filled width).longestReservation ≤ 5 := by
  have hshape := (grows_filled h).sameShape
  refine foldl_max_le (List.forall_mem_map.2 fun cell hcell => ?_)
  rw [hshape.nRows_eq, List.mem_range] at hcell
  have hwanted : (List.replicate (width * width) 5)[cell]? = some 5 :=
    List.getElem?_replicate_of_lt hcell
  rw [hshape.capacity_eq, base, Draft.capacity_reserved List.length_replicate hwanted, leads_square]
  exact reservation_le_five _

/-! ### The pattern -/

/-- The stencil is the compressed draft with all couplings. -/
theorem fivePoint_eq (h : width * width < columnLimit) :
    fivePoint width = .ok (filled width).compressed := by
  have hcouple : couple width (base width) 0 (width * width) = .ok (filled width) := by
    rw [couple_eq]
    exact Draft.Progress.finished_eq_ok_iff.2 ⟨(insertPairs_base h).1, rfl⟩
  rw [fivePoint, uniform_eq h, Rows.ok_bind, hcouple, Rows.ok_bind,
    Draft.compress_eq (wellFormed_filled h)]

/-- A stencil with more cells than columns can be numbered is refused. -/
theorem fivePoint_of_le (h : columnLimit ≤ width * width) : fivePoint width = .error .tooLarge := by
  rw [fivePoint, Draft.uniform, Rows.require, if_neg (Nat.not_lt_of_le h)]
  rfl

/-- The pattern couples the cells of a grid with `width` lines of `width` cells, and nothing
else. -/
structure Couples (p : Pattern) (width : Nat) : Prop where
  wellFormed : p.WellFormed
  nRows_eq : Compressed.nRows p = width * width
  nCols_eq : Compressed.nCols p = width * width
  diagonalFirst_eq : Compressed.diagonalFirst p = true
  contains_iff : ∀ cell other, Compressed.contains p cell other = .ok true ↔
    Coupled width cell other
  symmetric : p.Symmetric
  entryCount_eq : Compressed.entryCount p = .ok (5 * width ^ 2 - 4 * width)
  bandwidth_eq : Compressed.bandwidth p = .ok (if 2 ≤ width then width else 0)
  longestRow_le : ∃ longest, Compressed.longestRow p = .ok longest ∧ longest ≤ 5

/-- The compressed draft couples just the cells that are one step apart. -/
theorem couples_filled (h : width * width < columnLimit) :
    Couples (filled width).compressed width := by
  have hwf := wellFormed_filled h
  have hshape := (grows_filled h).sameShape
  have hagrees := hwf.agrees_compressed
  have hp := Draft.wellFormed_compressed hwf
  have hcontains : ∀ cell other,
      Compressed.contains (filled width).compressed cell other = .ok true ↔
        Coupled width cell other := by
    intro cell other
    rw [hagrees.contains, Except.ok.injEq, (insertPairs_base h).2]
  constructor
  case wellFormed => exact hp
  case nRows_eq => exact hagrees.nRows.trans hshape.nRows_eq
  case nCols_eq => exact hagrees.nCols.trans hshape.nCols_eq
  case diagonalFirst_eq =>
    exact hagrees.diagonalFirst.trans (hshape.diagonalFirst_eq.trans (leads_square _))
  case contains_iff => exact hcontains
  case symmetric =>
    intro cell other hin
    rw [hcontains] at hin ⊢
    exact hin.symm
  case entryCount_eq => rw [hagrees.entryCount, entryCount_filled h]
  case bandwidth_eq =>
    refine (Compressed.bandwidth_eq_ok_iff hp.layout).2 ⟨fun cell other hin => ?_, ?_⟩
    · exact ((hcontains cell other).1 hin).distance_le
    · by_cases hnone : reach width = 0
      · exact .inl hnone
      · obtain ⟨hcoupled, hdistance⟩ := reach_attained hnone
        exact .inr ⟨0, width, (hcontains 0 width).2 hcoupled, hdistance⟩
  case longestRow_le =>
    obtain ⟨longest, hlongest, hle⟩ := hagrees.longestRow
    exact ⟨longest, hlongest, Nat.le_trans hle (longestReservation_filled_le h)⟩

/-- As long as columns fit their numbers, the stencil of every width is made, and it couples each
cell with those beside it in its line and with those at its place in the lines before and behind.  A
larger one is refused, as far as its cells can be counted. -/
theorem fivePoint_couples (width : Nat) :
    (width * width < columnLimit → ∃ p, fivePoint width = .ok p ∧ Couples p width) ∧
      (columnLimit ≤ width * width → width * width < sizeLimit →
        fivePoint width = .error .tooLarge) :=
  ⟨fun h => ⟨_, fivePoint_eq h, couples_filled h⟩, fun h _ => fivePoint_of_le h⟩

/-- The last cell of a line is coupled with the one below it, and not with the one that is next in
number. -/
theorem fivePoint_couples_three :
    (∃ p, fivePoint 3 = .ok p ∧ Compressed.entryCount p = .ok 33 ∧ Compressed.bandwidth p = .ok 3 ∧
      Compressed.contains p 2 5 = .ok true ∧ Compressed.contains p 2 3 ≠ .ok true) ∧
    fivePoint 0x10000 = .error .tooLarge := by
  obtain ⟨p, hp, hcouples⟩ := (fivePoint_couples 3).1 (by decide)
  refine ⟨⟨p, hp, hcouples.entryCount_eq, hcouples.bandwidth_eq, ?_, ?_⟩, ?_⟩
  · exact (hcouples.contains_iff 2 5).2 ⟨0, 2, 1, 2, by decide, by decide, rfl, rfl, .inr rfl⟩
  · rw [Ne, hcouples.contains_iff, coupled_iff]
    decide
  · exact (fivePoint_couples 0x10000).2 (by decide) (by decide)

end SparsePattern.Stencil
