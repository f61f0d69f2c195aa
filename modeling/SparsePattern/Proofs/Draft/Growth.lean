import SparsePattern.Proofs.Draft.Insertion

/-!
# What growing keeps

A draft that grows keeps its shape (`Grows.sameShape`), the columns of every row in front of those
that come (`Grows.recorded_prefix`) and what its occupied slots hold (`Grows.getElem?_slots`).
-/

namespace SparsePattern.Draft

variable {d e : Draft}

/-- The drafts have the same dimensions, reservations and policy. -/
structure SameShape (d e : Draft) : Prop where
  nRows_eq : e.nRows = d.nRows
  nCols_eq : e.nCols = d.nCols
  rowStart_eq : e.rowStart = d.rowStart
  size_slots : e.slots.size = d.slots.size
  diagonalFirst_eq : e.diagonalFirst = d.diagonalFirst

namespace SameShape

theorem refl (d : Draft) : d.SameShape d := ⟨rfl, rfl, rfl, rfl, rfl⟩

theorem trans {f : Draft} (h : d.SameShape e) (h' : e.SameShape f) : d.SameShape f :=
  ⟨h'.nRows_eq.trans h.nRows_eq, h'.nCols_eq.trans h.nCols_eq, h'.rowStart_eq.trans h.rowStart_eq,
    h'.size_slots.trans h.size_slots, h'.diagonalFirst_eq.trans h.diagonalFirst_eq⟩

theorem start_eq (h : d.SameShape e) (row : Nat) : e.start row = d.start row := by
  rw [start, start, h.rowStart_eq]

theorem capacity_eq (h : d.SameShape e) (row : Nat) : e.capacity row = d.capacity row := by
  rw [capacity, capacity, h.start_eq, h.start_eq]

theorem square (h : d.SameShape e) (hsquare : d.nRows = d.nCols) : e.nRows = e.nCols := by
  rw [h.nRows_eq, h.nCols_eq, hsquare]

end SameShape

/-! ### Slots -/

/-- A row records no more than it has slots for. -/
theorem length_recorded_le (h : d.WellFormed) {row : Nat} (hrow : row < d.nRows) :
    (d.recorded row).length ≤ d.capacity row := by
  rw [← h.length_window hrow]
  exact (List.takeWhile_sublist _).length_le

/-- The mark of a free slot is never recorded. -/
theorem ne_free_of_mem_recorded (h : d.WellFormed) {row : Nat} {c : UInt32} (hrow : row < d.nRows)
    (hc : c ∈ d.recorded row) : c ≠ free :=
  ne_free_of_lt h.nCols_lt ((h.windows row hrow).column_lt c hc)

/-- The slots of a row hold its columns in order and are free from there on. -/
theorem getElem?_slots (h : d.WellFormed) {row k : Nat} (hrow : row < d.nRows)
    (hk : k < d.capacity row) :
    d.slots[d.start row + k]? = some ((d.recorded row).getD k free) := by
  have hlen : k < (d.window row).length := by
    rw [h.length_window hrow]
    exact hk
  have hslot : (d.window row)[k]? = d.slots[d.start row + k]? := h.tiled.getElem?_rowList hrow hlen
  rw [← hslot, window_eq h hrow, List.getD_eq_getElem?_getD]
  rcases Nat.lt_or_ge k (d.recorded row).length with hlt | hge
  · rw [List.getElem?_append_left hlt, List.getElem?_eq_getElem hlt, Option.getD_some]
  · have hspare : k - (d.recorded row).length < d.capacity row - (d.recorded row).length := by omega
    rw [List.getElem?_append_right hge, List.getElem?_replicate, if_pos hspare,
      List.getElem?_eq_none hge, Option.getD_none]

/-! ### One placement -/

private theorem Placing.sameShape (hp : Placing d e) : d.SameShape e := by
  obtain ⟨row, c, -, rfl⟩ := hp
  exact ⟨rfl, rfl, rfl, Array.size_setIfInBounds, rfl⟩

private theorem Placing.recorded_prefix (h : d.WellFormed) (hp : Placing d e) {r : Nat}
    (hr : r < d.nRows) : d.recorded r <+: e.recorded r := by
  obtain ⟨row, c, hroom, rfl⟩ := hp
  by_cases hne : r = row
  · subst hne
    rw [recorded_place_self h hroom]
    exact List.prefix_append _ _
  · have hsame := recorded_place_of_ne h hroom hr hne
    exact hsame.symm ▸ List.prefix_refl _

/-- The slot that is written was free. -/
private theorem Placing.getElem?_slots (h : d.WellFormed) (hp : Placing d e) {k : Nat} {c : UInt32}
    (hk : d.slots[k]? = some c) (hc : c ≠ free) : e.slots[k]? = some c := by
  obtain ⟨row, b, hroom, rfl⟩ := hp
  have hwritten := Draft.getElem?_slots h hroom.row_lt hroom.length_lt
  rw [List.getD_eq_getElem?_getD, List.getElem?_eq_none (Nat.le_refl _),
    Option.getD_none] at hwritten
  have hne : d.start row + (d.recorded row).length ≠ k := by
    rintro rfl
    rw [hwritten] at hk
    exact hc (Option.some.inj hk).symm
  show (d.slots.setIfInBounds _ b)[k]? = some c
  rw [Array.getElem?_setIfInBounds_ne hne]
  exact hk

/-! ### Any number of placements -/

namespace Grows

/-- Growing changes no offset and no dimension. -/
theorem sameShape (hg : d.Grows e) : d.SameShape e := by
  induction hg with
  | refl => exact .refl d
  | tail _ hp ih => exact ih.trans hp.sameShape

/-- What a row records stays, in order, and more may follow. -/
theorem recorded_prefix (hg : d.Grows e) (h : d.WellFormed) {r : Nat} (hr : r < d.nRows) :
    d.recorded r <+: e.recorded r := by
  induction hg with
  | refl => exact List.prefix_refl _
  | @tail f _ hg hp ih =>
    have hrows : f.nRows = d.nRows := (Grows.sameShape hg).nRows_eq
    exact ih.trans (hp.recorded_prefix (Grows.wellFormed hg h) (hrows ▸ hr))

/-- A slot that is taken stays as it is. -/
theorem getElem?_slots (hg : d.Grows e) (h : d.WellFormed) {k : Nat} {c : UInt32}
    (hk : d.slots[k]? = some c) (hc : c ≠ free) : e.slots[k]? = some c := by
  induction hg with
  | refl => exact hk
  | tail hg hp ih => exact hp.getElem?_slots (Grows.wellFormed hg h) ih hc

end Grows

end SparsePattern.Draft
