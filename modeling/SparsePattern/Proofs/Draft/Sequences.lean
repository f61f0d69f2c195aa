import SparsePattern.Proofs.Draft.Entries

/-!
# Insertions one after another

A sequence of insertions runs to its end exactly if each of them is accepted by the draft that those
before it leave (`failure_insertPairs_eq_none_iff`).  Otherwise it stops at the first that is
refused, in the draft that the accepted ones have left (`insertPairs_of_refused`).  Where the pairs
come row by row, that is in the first row without room for what it is asked for
(`exists_first_rowFull`).
-/

namespace SparsePattern.Draft

variable {d : Draft} {row col : Nat} {fault : Fault} {pairs front rest : List (Nat × Nat)}

/-! ### Accepted and refused insertions -/

/-- The draft after these insertions, each made in turn whatever became of those before it. -/
def insertAll (d : Draft) (pairs : List (Nat × Nat)) : Draft :=
  pairs.foldl (fun d pair => (d.insert pair.1 pair.2).draft) d

/-- Each of these insertions is accepted when its turn comes. -/
def Admits (d : Draft) : List (Nat × Nat) → Prop
  | [] => True
  | (row, col) :: pairs => (d.insert row col).failure = none ∧ (d.insert row col).draft.Admits pairs

private theorem draft_insert_of_refused (h : (d.insert row col).failure = some fault) :
    (d.insert row col).draft = d := by
  by_cases hrow : d.nRows ≤ row
  · rw [insert, if_pos hrow]
  by_cases hcol : d.nCols ≤ col
  · rw [insert, if_neg hrow, if_pos hcol]
  rw [insert, if_neg hrow, if_neg hcol] at h ⊢
  -- a probe that finds the column or room for it refuses nothing
  cases hprobe : probe d.slots col.toUInt32 (d.start row) (d.capacity row) with
  | present | room => simp [hprobe] at h
  | full => rfl

/-- Admitted insertions are all made. -/
theorem insertPairs_of_admits (h : d.Admits pairs) :
    d.insertPairs pairs = { draft := d.insertAll pairs } := by
  induction pairs generalizing d with
  | nil => rfl
  | cons pair pairs ih =>
    obtain ⟨row, col⟩ := pair
    obtain ⟨hone, hrest⟩ := h
    rw [insertPairs, Progress.andThen, hone]
    exact ih hrest

/-- Nothing that follows a refused insertion is tried. -/
theorem insertPairs_of_refused (hfront : d.Admits front)
    (hrefused : ((d.insertAll front).insert row col).failure = some fault) :
    d.insertPairs (front ++ (row, col) :: rest) =
      { draft := d.insertAll front, failure := some fault } := by
  induction front generalizing d with
  | nil =>
    have hrefused : (d.insert row col).failure = some fault := hrefused
    rw [List.nil_append, insertPairs, Progress.andThen, hrefused]
    show d.insert row col = _
    rw [← hrefused]
    exact congrArg (Progress.mk · _) (draft_insert_of_refused hrefused)
  | cons pair front ih =>
    obtain ⟨row, col⟩ := pair
    obtain ⟨hone, hrest⟩ := hfront
    rw [List.cons_append, insertPairs, Progress.andThen, hone]
    exact ih hrest hrefused

/-- A sequence that is not admitted has a first insertion that is refused. -/
private theorem exists_refused (h : ¬ d.Admits pairs) :
    ∃ front row col rest fault, pairs = front ++ (row, col) :: rest ∧ d.Admits front ∧
      ((d.insertAll front).insert row col).failure = some fault := by
  induction pairs generalizing d with
  | nil => exact absurd trivial h
  | cons pair pairs ih =>
    obtain ⟨row, col⟩ := pair
    cases hone : (d.insert row col).failure with
    | some fault => exact ⟨[], row, col, pairs, fault, rfl, trivial, hone⟩
    | none =>
      obtain ⟨front, row', col', rest, fault, rfl, hfront, hrefused⟩ :=
        ih fun hrest => h ⟨hone, hrest⟩
      exact ⟨(row, col) :: front, row', col', rest, fault, rfl, ⟨hone, hfront⟩, hrefused⟩

/-- No insertion is refused exactly if the draft admits them one after another. -/
theorem failure_insertPairs_eq_none_iff :
    (d.insertPairs pairs).failure = none ↔ d.Admits pairs := by
  constructor
  · intro hnone
    by_contra hadmits
    obtain ⟨front, row, col, rest, fault, rfl, hfront, hrefused⟩ := exists_refused hadmits
    rw [insertPairs_of_refused hfront hrefused] at hnone
    cases hnone
  · intro hadmits
    rw [insertPairs_of_admits hadmits]

/-- A sequence that is stopped splits where it is stopped. -/
theorem exists_refused_of_failure (h : (d.insertPairs pairs).failure = some fault) :
    ∃ front row col rest, pairs = front ++ (row, col) :: rest ∧ d.Admits front ∧
      ((d.insertAll front).insert row col).failure = some fault ∧
      (d.insertPairs pairs).draft = d.insertAll front := by
  have hadmits : ¬ d.Admits pairs := by
    intro hadmits
    rw [failure_insertPairs_eq_none_iff.2 hadmits] at h
    cases h
  obtain ⟨front, row, col, rest, fault', rfl, hfront, hrefused⟩ := exists_refused hadmits
  rw [insertPairs_of_refused hfront hrefused] at h ⊢
  exact ⟨front, row, col, rest, rfl, hfront, hrefused.trans h, rfl⟩

private theorem grows_insertAll (h : d.WellFormed) (pairs : List (Nat × Nat)) :
    d.Grows (d.insertAll pairs) := by
  induction pairs generalizing d with
  | nil => exact .refl
  | cons pair pairs ih =>
    have hone := grows_insert h pair.1 pair.2
    exact hone.trans (ih (hone.wellFormed h))

/-- Admitted insertions add what they ask for and nothing else. -/
private theorem contains_insertAll (h : d.WellFormed)
    (hpairs : ∀ r c, (r, c) ∈ pairs → r < d.nRows ∧ c < d.nCols) (hadmits : d.Admits pairs)
    {r c : Nat} :
    (d.insertAll pairs).contains r c = true ↔ d.contains r c = true ∨ (r, c) ∈ pairs := by
  have hends := insertPairs_outcome h hpairs
  rw [insertPairs_of_admits hadmits] at hends
  exact hends.contains_iff_of_failure_eq_none rfl

private theorem insertPairs_append (pairs pairs' : List (Nat × Nat)) :
    d.insertPairs (pairs ++ pairs') = (d.insertPairs pairs).andThen fun d =>
      d.insertPairs pairs' := by
  induction pairs generalizing d with
  | nil => rfl
  | cons pair pairs ih =>
    obtain ⟨row, col⟩ := pair
    rw [List.cons_append, insertPairs, insertPairs]
    cases hfailure : (d.insert row col).failure with
    | none => simp only [Progress.andThen, hfailure, ih]
    | some fault => simp only [Progress.andThen, hfailure]

private theorem Progress.finished_andThen (progress : Progress) (next : Draft → Progress) :
    (progress.andThen next).finished = progress.finished >>= fun d => (next d).finished := by
  cases hfailure : progress.failure with
  | none => simp only [andThen, finished, hfailure, Rows.ok_bind]
  | some fault => simp only [andThen, finished, hfailure, Rows.error_bind]

/-! ### Rows in turn -/

/-- The entries that the rows `row, …, row + count - 1` ask for. -/
def rowPairs (asked : Nat → List Nat) (row count : Nat) : List (Nat × Nat) :=
  (List.range' row count).flatMap fun r => (asked r).map (r, ·)

/-- A pair is asked for exactly by its row. -/
theorem mem_rowPairs {asked : Nat → List Nat} {count r : Nat} :
    (r, col) ∈ rowPairs asked row count ↔ (row ≤ r ∧ r < row + count) ∧ col ∈ asked r := by
  simp [rowPairs, List.mem_range'_1]

/-- The pairs come row by row. -/
theorem pairwise_rowPairs {asked : Nat → List Nat} {count : Nat} :
    (rowPairs asked row count).Pairwise (·.1 ≤ ·.1) := by
  refine List.pairwise_flatMap.2 ⟨fun r _ => ?_, ?_⟩
  · refine List.pairwise_map.2 (List.pairwise_of_forall fun _ _ => ?_)
    exact Nat.le_refl r
  · have hlt : (List.range' row count).Pairwise (· < ·) := List.pairwise_lt_range' _
    refine hlt.imp fun {r r'} hlt x hx y hy => ?_
    obtain ⟨c, -, rfl⟩ := List.mem_map.1 hx
    obtain ⟨c', -, rfl⟩ := List.mem_map.1 hy
    exact Nat.le_of_lt hlt

/-- Each row has its turn before the next. -/
theorem finished_insertPairs_rowPairs (asked : Nat → List Nat) {count : Nat} :
    (d.insertPairs (rowPairs asked row (count + 1))).finished =
      (d.insertRow row (asked row)).finished >>= fun d =>
        (d.insertPairs (rowPairs asked (row + 1) count)).finished := by
  rw [rowPairs, List.range'_succ, List.flatMap_cons, insertPairs_append, Progress.finished_andThen]
  rfl

/-- Within the dimensions only a full row refuses. -/
private theorem refused_of_failure_insert (h : d.WellFormed) (hrow : row < d.nRows)
    (hcol : col < d.nCols) (hfault : (d.insert row col).failure = some fault) :
    fault = .rowFull row (d.capacity row) ∧ d.Refused row col := by
  rw [insert_eq h hrow hcol] at hfault
  by_cases hpresent : col.toUInt32 ∈ d.recorded row
  · rw [if_pos hpresent] at hfault
    cases hfault
  by_cases hroom : (d.recorded row).length < d.capacity row
  · rw [if_neg hpresent, if_pos hroom] at hfault
    cases hfault
  · rw [if_neg hpresent, if_neg hroom] at hfault
    refine ⟨(Option.some.inj hfault).symm, hrow, ?_, ?_⟩
    · rwa [contains_iff_mem h hrow hcol]
    · exact Nat.le_antisymm (length_recorded_le h hrow) (Nat.le_of_not_lt hroom)

/-- Insertions row by row stop at the first row that is asked for more than it has slots. -/
theorem exists_first_rowFull (h : d.WellFormed)
    (hpairs : ∀ r c, (r, c) ∈ pairs → r < d.nRows ∧ c < d.nCols)
    (hsorted : pairs.Pairwise (·.1 ≤ ·.1)) {S : Nat → Finset Nat}
    (hS : ∀ r < d.nRows, ∀ c, c ∈ S r ↔ d.contains r c = true ∨ (r, c) ∈ pairs)
    (hfault : (d.insertPairs pairs).failure = some fault) :
    ∃ r < d.nRows, fault = .rowFull r (d.capacity r) ∧ d.capacity r < (S r).card ∧
      ∀ r' < r, (S r').card ≤ d.capacity r' := by
  obtain ⟨front, row, col, rest, rfl, hfront, hrefused, -⟩ := exists_refused_of_failure hfault
  have hgrows := grows_insertAll h front
  have hshape := hgrows.sameShape
  have hwf := hgrows.wellFormed h
  have hhere : (row, col) ∈ front ++ (row, col) :: rest := by simp
  obtain ⟨hrow, hcol⟩ := hpairs row col hhere
  -- what the accepted insertions have recorded
  have hcontains : ∀ {r c}, (d.insertAll front).contains r c = true ↔
      d.contains r c = true ∨ (r, c) ∈ front :=
    contains_insertAll h (fun r c hmem => hpairs r c (List.mem_append_left _ hmem)) hfront
  obtain ⟨rfl, hfull⟩ :=
    refused_of_failure_insert hwf (hshape.nRows_eq ▸ hrow) (hshape.nCols_eq ▸ hcol) hrefused
  rw [hshape.capacity_eq]
  refine ⟨row, hrow, rfl, ?_, ?_⟩
  · have hwithin : ∀ c, (d.insertAll front).contains row c = true → c ∈ S row := by
      intro c hc
      rw [hS row hrow]
      rcases hcontains.1 hc with hc | hmem
      · exact .inl hc
      · exact .inr (List.mem_append_left _ hmem)
    have hlt := hfull.capacity_lt hwf hwithin ((hS row hrow col).2 (.inr hhere))
    rwa [hshape.capacity_eq] at hlt
  · intro r hr
    have hr' : r < d.nRows := Nat.lt_trans hr hrow
    rw [← hshape.capacity_eq]
    refine card_le_capacity hwf (hshape.nRows_eq ▸ hr') fun c hc => ?_
    rw [hcontains]
    rcases (hS r hr' c).1 hc with hc | hmem
    · exact .inl hc
    · -- the pairs of a row before this one have all had their turn
      rcases List.mem_append.1 hmem with hmem | hmem
      · exact .inr hmem
      · have hle : row ≤ r := by
          rcases List.mem_cons.1 hmem with heq | hmem
          · cases heq
            exact Nat.le_refl _
          · exact (List.pairwise_cons.1 (List.pairwise_append.1 hsorted).2.1).1 _ hmem
        exact absurd hr (Nat.not_lt_of_le hle)

end SparsePattern.Draft
