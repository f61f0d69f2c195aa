import Mathlib.Order.Interval.Finset.Nat
import SparsePattern.Proofs.Draft.Canonical

/-!
# Closure under transposition

Symmetrizing visits each row once, although rows that were visited before may still grow.  No visit
is missed, for what a visited row gains is the transpose of an entry that is there already: the rows
visited so far stay closed (`ClosedBelow`).  So one pass ends with the entries and their transposes,
or at a row without room for its own (`symmetrize_outcome`).
-/

namespace SparsePattern

namespace Draft

variable {d : Draft} {row count : Nat}

/-! ### One row -/

private theorem getD_slots (h : d.WellFormed) {k : Nat} (hrow : row < d.nRows)
    (hk : k < d.capacity row) :
    d.slots.getD (d.start row + k) free = (d.recorded row).getD k free := by
  rw [Array.getD_eq_getD_getElem?, getElem?_slots h hrow hk, Option.getD_some]

/-- The row that is scanned does not grow, for its own transposes are its diagonal entry. -/
private theorem recorded_insert_transpose (h : d.WellFormed) {c : UInt32} (hrow : row < d.nRows)
    (hc : c ∈ d.recorded row) : (d.insert c.toNat row).draft.recorded row = d.recorded row := by
  by_cases hdiagonal : row = c.toNat
  · have hcontains : d.contains c.toNat row = true := by
      have hpresent := (mem_recorded_iff hrow).1 hc
      rwa [← hdiagonal] at hpresent ⊢
    rw [insert_of_contains h hcontains]
  · exact recorded_insert_of_ne h hrow hdiagonal

/-- The scan of the slots behind the columns `front` records the transposes of the columns behind
them. -/
private theorem transposeSlots_append (h : d.WellFormed) (hrow : row < d.nRows)
    {front rest : List UInt32} (hrecorded : d.recorded row = front ++ rest) :
    d.transposeSlots row (d.start row + front.length) (d.capacity row - front.length) =
      d.insertPairs (rest.map fun c => (c.toNat, row)) := by
  induction rest generalizing d front with
  | nil =>
    rw [List.append_nil] at hrecorded
    cases hcount : d.capacity row - front.length with
    | zero => rfl
    | succ count =>
      have hfree : d.slots.getD (d.start row + front.length) free = free := by
        rw [getD_slots h hrow (by omega), getD_recorded_eq_free_iff h hrow, hrecorded]
      rw [transposeSlots, hfree]
      rfl
  | cons c rest ih =>
    have hmem : c ∈ d.recorded row := by simp [hrecorded]
    have hlen : front.length < (d.recorded row).length := by simp [hrecorded]
    have hle := length_recorded_le h hrow
    have hleft : d.capacity row - front.length ≠ 0 := by omega
    obtain ⟨count, hcount⟩ := Nat.exists_eq_succ_of_ne_zero hleft
    have hheld : d.slots.getD (d.start row + front.length) free = c := by
      rw [getD_slots h hrow (by omega), hrecorded]
      simp
    -- after the insertion the scan is at the next slot of the same row
    have hgrows := grows_insert h c.toNat row
    have hshape := hgrows.sameShape
    have hrow' : row < (d.insert c.toNat row).draft.nRows := by
      rw [hshape.nRows_eq]
      exact hrow
    have hrecorded' : (d.insert c.toNat row).draft.recorded row = (front ++ [c]) ++ rest := by
      rw [recorded_insert_transpose h hrow hmem, hrecorded, List.append_assoc]
      rfl
    have hnext := ih (hgrows.wellFormed h) hrow' hrecorded'
    have hcount' : (d.insert c.toNat row).draft.capacity row - (front ++ [c]).length = count := by
      rw [hshape.capacity_eq, List.length_append, List.length_singleton]
      omega
    rw [hcount', hshape.start_eq, List.length_append, List.length_singleton,
      ← Nat.add_assoc] at hnext
    rw [hcount, transposeSlots, hheld, if_neg (ne_free_of_mem_recorded h hrow hmem), List.map_cons,
      insertPairs, Progress.andThen, Progress.andThen, hnext]

private theorem transposeSlots_eq (h : d.WellFormed) (hrow : row < d.nRows) :
    d.transposeSlots row (d.start row) (d.capacity row) =
      d.insertPairs ((d.recorded row).map fun c => (c.toNat, row)) :=
  transposeSlots_append h hrow (List.nil_append _).symm

/-- The visit of a row aims at the mirror images of its entries. -/
private theorem transposeSlots_outcome (h : d.WellFormed) (hsquare : d.nRows = d.nCols)
    (hrow : row < d.nRows) :
    (d.transposeSlots row (d.start row) (d.capacity row)).Outcome
      fun r c => d.contains r c = true ∨ (c = row ∧ d.contains row r = true) := by
  have hpairs : ∀ r c, (r, c) ∈ (d.recorded row).map (fun c => (c.toNat, row)) ↔
      c = row ∧ d.contains row r = true := by
    intro r c
    rw [List.mem_map, contains_iff, and_iff_right hrow]
    constructor
    · rintro ⟨b, hb, hpair⟩
      obtain ⟨rfl, rfl⟩ := Prod.mk.inj hpair
      exact ⟨rfl, b, hb, rfl⟩
    · rintro ⟨rfl, b, hb, rfl⟩
      exact ⟨b, hb, rfl⟩
  rw [transposeSlots_eq h hrow]
  refine (insertPairs_outcome h ?_).congr ?_
  · intro r c hmem
    obtain ⟨rfl, hc⟩ := (hpairs r c).1 hmem
    exact ⟨hsquare ▸ (lt_of_contains h hc).2, hsquare ▸ hrow⟩
  · intro r c
    rw [hpairs]

/-! ### All rows -/

/-- The entries in the rows before `row` have their transposes. -/
def ClosedBelow (d : Draft) (row : Nat) : Prop :=
  ∀ r < row, ∀ c, d.contains r c = true → d.contains c r = true

/-- The transposes that a row adds leave the rows before it closed and close the row itself. -/
private theorem ClosedBelow.succ {e : Draft} (hclosed : d.ClosedBelow row)
    (he : ∀ r c, e.contains r c = true ↔
      d.contains r c = true ∨ (c = row ∧ d.contains row r = true)) :
    e.ClosedBelow (row + 1) := by
  intro r hr c hc
  rw [he] at hc ⊢
  rcases hc with hc | ⟨rfl, hc⟩
  · by_cases hlast : r = row
    · subst hlast
      exact .inr ⟨rfl, hc⟩
    · exact .inl (hclosed r (by omega) c hc)
  · exact .inl hc

/-- One pass over the rows from `row` on suffices if the rows before it are closed. -/
private theorem transposeRows_outcome (h : d.WellFormed) (hsquare : d.nRows = d.nCols)
    (hcount : row + count = d.nRows) (hclosed : d.ClosedBelow row) :
    (d.transposeRows row count).Outcome fun r c =>
      d.contains r c = true ∨ d.contains c r = true := by
  induction count generalizing d row with
  | zero =>
    refine .complete rfl fun r c => ?_
    constructor
    · exact Or.inl
    · rintro (hc | hc)
      · exact hc
      · have hlt : c < row := by
          rw [← Nat.add_zero row, hcount]
          exact (lt_of_contains h hc).1
        exact hclosed c hlt r hc
  | succ count ih =>
    have hgrows := grows_transposeSlots h row (d.start row) (d.capacity row)
    have hshape := hgrows.sameShape
    refine (transposeSlots_outcome h hsquare (by omega)).andThen ?_ ?_
    · rintro r c (hc | ⟨rfl, hc⟩)
      · exact .inl hc
      · exact .inr hc
    · intro he
      have hcount' := (Nat.succ_add_eq_add_succ row count).trans (hcount.trans hshape.nRows_eq.symm)
      refine (ih (hgrows.wellFormed h) (hshape.square hsquare) hcount' (hclosed.succ he)).congr ?_
      -- what the row has added belongs to the closure already
      intro r c
      rw [he, he]
      constructor
      · rintro ((hc | ⟨rfl, hc⟩) | hc | ⟨rfl, hc⟩)
        · exact .inl hc
        · exact .inr hc
        · exact .inr hc
        · exact .inl hc
      · rintro (hc | hc)
        · exact .inl (.inl hc)
        · exact .inr (.inl hc)

/-- Symmetrizing aims at the entries and their mirror images. -/
theorem symmetrize_outcome (h : d.WellFormed) (hsquare : d.nRows = d.nCols) :
    d.symmetrize.Outcome fun r c => d.contains r c = true ∨ d.contains c r = true := by
  rw [symmetrize, if_pos hsquare]
  exact transposeRows_outcome h hsquare (Nat.zero_add _) fun r hr => absurd hr (Nat.not_lt_zero r)

/-! ### Closed drafts -/

private theorem transposeRows_of_closed (h : d.WellFormed)
    (hclosed : ∀ r c, d.contains r c = true → d.contains c r = true)
    (hcount : row + count ≤ d.nRows) : d.transposeRows row count = { draft := d } := by
  induction count generalizing row with
  | zero => rfl
  | succ count ih =>
    have hrow : row < d.nRows := by omega
    have hslots : d.transposeSlots row (d.start row) (d.capacity row) = { draft := d } := by
      rw [transposeSlots_eq h hrow]
      refine insertPairs_of_contains h ?_
      intro r c hmem
      obtain ⟨b, hb, hpair⟩ := List.mem_map.1 hmem
      obtain ⟨rfl, rfl⟩ := Prod.mk.inj hpair
      exact hclosed _ _ ((mem_recorded_iff hrow).1 hb)
    rw [transposeRows, hslots]
    exact ih (by omega)

private theorem symmetrize_of_closed (h : d.WellFormed) (hsquare : d.nRows = d.nCols)
    (hclosed : ∀ r c, d.contains r c = true → d.contains c r = true) :
    d.symmetrize = { draft := d } := by
  rw [symmetrize, if_pos hsquare]
  exact transposeRows_of_closed h hclosed (Nat.le_of_eq (Nat.zero_add _))

/-! ### The closure and its room -/

/-- The columns of `row` once the entries are closed under transposition. -/
def closure (d : Draft) (row : Nat) : Finset Nat :=
  (Finset.range d.nCols).filter fun col => d.contains row col = true ∨ d.contains col row = true

private theorem mem_closure (h : d.WellFormed) (hsquare : d.nRows = d.nCols) {col : Nat} :
    col ∈ d.closure row ↔ d.contains row col = true ∨ d.contains col row = true := by
  rw [closure, Finset.mem_filter, Finset.mem_range, and_iff_right_iff_imp]
  rintro (hc | hc)
  · exact (lt_of_contains h hc).2
  · rw [← hsquare]
    exact (lt_of_contains h hc).1

end Draft

namespace Session

open Compressed (indexOf?)

/-- Symmetrizing a square draft ends exactly if each row has room for its entries and the transposes
of the entries in its column; these are what the rows then hold, so that the compressed pattern is
symmetric and symmetrizing again does nothing.  Otherwise it stops at a row without this room,
between the entries and their closure.  Occupied slots stay as they are, and a rectangle is refused
unchanged. -/
theorem run_symmetrize_closes (calls : List Call) {d : Draft} (hd : d ∈ (run calls).drafts) :
    (d.nRows ≠ d.nCols →
      d.symmetrize = { draft := d, failure := some (.notSquare d.nRows d.nCols) }) ∧
    (∀ (k : Nat) (c : UInt32), d.slots[k]? = some c → c ≠ Draft.free →
      d.symmetrize.draft.slots[k]? = some c) ∧
    (d.nRows = d.nCols →
      (d.symmetrize.failure = none ↔ ∀ r < d.nRows, (d.closure r).card ≤ d.capacity r) ∧
      (d.symmetrize.failure = none →
        (∀ r c, d.symmetrize.draft.contains r c = true ↔ c ∈ d.closure r) ∧
        (∃ p, d.symmetrize.draft.compress = .ok p ∧
          ∀ r c, (∃ index, indexOf? p r c = .ok (some index)) ↔
            ∃ index, indexOf? p c r = .ok (some index)) ∧
        d.symmetrize.draft.symmetrize = { draft := d.symmetrize.draft }) ∧
      ∀ fault, d.symmetrize.failure = some fault →
        (∃ r < d.nRows, fault = .rowFull r (d.capacity r) ∧ d.capacity r < (d.closure r).card) ∧
        (∀ r c, d.contains r c = true → d.symmetrize.draft.contains r c = true) ∧
        ∀ r c, d.symmetrize.draft.contains r c = true →
          d.contains r c = true ∨ d.contains c r = true) := by
  have h := wellFormed_of_mem_run hd
  have hgrows := Draft.grows_symmetrize h
  have hshape := hgrows.sameShape
  have hwf := hgrows.wellFormed h
  refine ⟨fun hne => by rw [Draft.symmetrize, if_neg hne], fun k c => hgrows.getElem?_slots h,
    fun hsquare => ?_⟩
  have hends := Draft.symmetrize_outcome h hsquare
  have hclosure : ∀ r < d.nRows, ∀ c, c ∈ d.closure r ↔
      d.contains r c = true ∨ d.contains c r = true :=
    fun r _ c => Draft.mem_closure h hsquare
  refine ⟨hends.failure_eq_none_iff h hgrows hclosure, fun hnone => ?complete,
    fun fault hfault => ?stopped⟩
  case complete =>
    have hcontains : ∀ r c, d.symmetrize.draft.contains r c = true ↔
        d.contains r c = true ∨ d.contains c r = true :=
      fun r c => hends.contains_iff_of_failure_eq_none hnone
    have hsymmetric : ∀ r c, d.symmetrize.draft.contains r c = true ↔
        d.symmetrize.draft.contains c r = true := by
      intro r c
      rw [hcontains, hcontains, or_comm]
    refine ⟨fun r c => ?_, ⟨_, Draft.compress_eq hwf, fun r c => ?_⟩, ?_⟩
    · rw [hcontains, Draft.mem_closure h hsquare]
    · rw [Draft.exists_indexOf?_compressed_iff hwf, Draft.exists_indexOf?_compressed_iff hwf,
        hsymmetric]
    · exact Draft.symmetrize_of_closed hwf (hshape.square hsquare) fun r c hc =>
        (hsymmetric r c).1 hc
  case stopped =>
    refine ⟨hends.exists_rowFull h hgrows hclosure hfault, ?_, ?_⟩
    · exact fun r c hc => hgrows.contains h hc
    · exact fun r c hc => hends.within hc

/-- Two square drafts. -/
def twoSquares : List Call :=
  [.uniform 3 3 2 {}, .insert 0 0 2, .ofReservations 3 3 [1, 2, 2] {}, .insert 1 1 0, .insert 1 2 0]

/-- Every row has room for the transposes. -/
def loose : Draft := ⟨3, 3, #[0, 2, 4, 6], #[0, 2, 1, Draft.free, 2, Draft.free], true⟩

/-- The first row has no room for the transposes. -/
def narrow : Draft := ⟨3, 3, #[0, 1, 3, 5], #[0, 1, 0, 2, 0], true⟩

theorem run_symmetrize_closes_twoSquares :
    (run twoSquares).drafts = [loose, narrow] ∧ loose.symmetrize.failure = none ∧
      (∀ r c, loose.symmetrize.draft.contains r c = true ↔ c ∈ loose.closure r) ∧
      ∃ r < 3, narrow.symmetrize.failure = some (.rowFull r (narrow.capacity r)) ∧
        narrow.capacity r < (narrow.closure r).card := by
  have hrun : (run twoSquares).drafts = [loose, narrow] := by cbv
  have hloose : loose ∈ (run twoSquares).drafts := by simp [hrun]
  have hnarrow : narrow ∈ (run twoSquares).drafts := by simp [hrun]
  obtain ⟨hroom, hcomplete, -⟩ := (run_symmetrize_closes twoSquares hloose).2.2 rfl
  obtain ⟨hroom', -, hrefused⟩ := (run_symmetrize_closes twoSquares hnarrow).2.2 rfl
  have hnone : loose.symmetrize.failure = none := hroom.2 (by decide)
  obtain ⟨fault, hfault⟩ : ∃ fault, narrow.symmetrize.failure = some fault := by
    refine Option.ne_none_iff_exists'.1 fun hnone => ?_
    have hfits : (narrow.closure 0).card ≤ narrow.capacity 0 := hroom'.1 hnone 0 (by decide)
    exact absurd hfits (by decide)
  obtain ⟨r, hr, rfl, hlt⟩ := (hrefused fault hfault).1
  exact ⟨hrun, hnone, (hcomplete hnone).1, r, hr, hfault, hlt⟩

end Session

end SparsePattern
